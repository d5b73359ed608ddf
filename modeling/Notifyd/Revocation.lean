import Notifyd.Auth

/-! A revoked key is not served again. A request that read the key before the UPDATE may cache it after
it, but the entry then expires within 180 seconds of the UPDATE; a later request that still finds the
entry looks for the marker less than 120 seconds after its start, and the marker lives for 300 seconds.
Redis is available: each of its commands takes effect. -/
namespace Notifyd.Revocation
open Uuids Expiring Runs Auth
open Numerals (Bytes)

def requestBound : Nat := 120000

def Allowed (s : State) : Label → Prop
  | .advance r => ∀ req, s.requests r = some req → s.now < req.start + requestBound
  | .upsertAPIKey k => ∀ row ∈ s.world.apiKeys, row.hashedKey = k.hashedKey → row.revoked = false
  | _ => True

/- What a request may know of a key: one that is revoked was read before the UPDATE, and none that was
revoked before the request started was read from the table. -/
def Fresh (s : State) (req : Request) (id : UUID) : Prop :=
  id ∉ req.returned ∧ ∀ u, s.updatedAt id = some u → req.start ≤ u

def PhaseOk (s : State) (req : Request) : Phase → Prop
  | .marker hit => hit.id ∈ req.returned → ∀ u, s.updatedAt hit.id = some u →
      req.start < u + authCacheTTL + requestBound
  | .verify cands => ∀ c ∈ cands, Fresh s req c.id
  | .store k => Fresh s req k.id
  | .served k => k.id ∉ req.returned
  | _ => True

structure RequestOk (s : State) (req : Request) : Prop where
  started : req.start ≤ s.now
  returned : ∀ id ∈ req.returned, id ∈ s.returned
  phase : PhaseOk s req req.phase

def Marked (s : State) (id : UUID) : Prop :=
  ∃ u e, s.updatedAt id = some u ∧ s.world.revokedMarkers id = some e ∧ u + authRevokedTTL ≤ e.expiresAt

structure Inv (s : State) : Prop where
  lifetime : ∀ k e, s.world.cache k = some e → e.expiresAt ≤ s.now + authCacheTTL
  stale : ∀ k e u, s.world.cache k = some e → s.updatedAt e.value.id = some u →
    e.expiresAt < u + authCacheTTL + requestBound
  past : ∀ id u, s.updatedAt id = some u → u ≤ s.now
  revoked : ∀ id u, s.updatedAt id = some u → ∀ row ∈ s.world.apiKeys, row.id = id → row.revoked = true
  updated : ∀ v call, s.revocations v = some call → ∃ u, s.updatedAt call.id = some u
  marked : ∀ v call, s.revocations v = some call → call.marked = true → Marked s call.id
  returned : ∀ id ∈ s.returned, Marked s id
  requests : ∀ r req, s.requests r = some req → RequestOk s req

theorem invInitial (keys : List ApiKey) : Inv (initial keys) := by
  constructor
  all_goals
    intros
    simp_all [initial]

theorem requestKept {s s' : State} {req : Request} (ok : RequestOk s req) (clock : s.now ≤ s'.now)
    (returned : ∀ id ∈ s.returned, id ∈ s'.returned)
    (known : ∀ id ∈ s.returned, s'.updatedAt id = s.updatedAt id)
    (updated : ∀ id u, s'.updatedAt id = some u → s.updatedAt id = some u ∨ s.now ≤ u) : RequestOk s' req := by
  have fresh : ∀ id, Fresh s req id → Fresh s' req id := by
    intro id before
    refine ⟨before.1,fun u now_ => ?_⟩
    rcases updated id u now_ with old | new
    · exact before.2 u old
    · exact Nat.le_trans ok.started new
  refine ⟨Nat.le_trans ok.started clock,fun id mem => returned id (ok.returned id mem),?_⟩
  have held := ok.phase
  cases phase : req.phase with
  | marker hit =>
    rw [phase] at held
    intro mem u now_
    rw [known hit.id (ok.returned _ mem)] at now_
    exact held mem u now_
  | verify cands =>
    rw [phase] at held
    exact fun c mem => fresh c.id (held c mem)
  | store k =>
    rw [phase] at held
    exact fresh k.id held
  | served k =>
    rw [phase] at held
    exact held
  | _ => trivial

theorem requestsKept {s s' : State} (inv : Inv s) (clock : s.now ≤ s'.now) (table : s'.requests = s.requests)
    (returned : ∀ id ∈ s.returned, id ∈ s'.returned) (known : ∀ id ∈ s.returned, s'.updatedAt id = s.updatedAt id)
    (updated : ∀ id u, s'.updatedAt id = some u → s.updatedAt id = some u ∨ s.now ≤ u) :
    ∀ r req, s'.requests r = some req → RequestOk s' req := by
  intro r req found
  rw [table] at found
  exact requestKept (inv.requests r req found) clock returned known updated

theorem requestsPut {s s' : State} {r : Nat} {req : Request} (inv : Inv s) (clock : s'.now = s.now)
    (table : s'.requests = Function.update s.requests r (some req)) (returned : s'.returned = s.returned)
    (updated : s'.updatedAt = s.updatedAt) (ok : RequestOk s' req) :
    ∀ r req, s'.requests r = some req → RequestOk s' req := by
  intro r' req' found
  rw [table] at found
  rcases updateSome found with ⟨rfl,rfl⟩ | ⟨_,before⟩
  · exact ok
  · exact requestKept (inv.requests r' req' before) (Nat.le_of_eq clock.symm) (by rw [returned]; exact fun _ mem => mem)
      (fun _ _ => by rw [updated]) (fun id u now_ => .inl (by rw [← updated]; exact now_))

theorem markerLives {s : State} (inv : Inv s) {req : Request} (ok : RequestOk s req)
    (timely : s.now < req.start + requestBound) {hit : AuthedKey} (mem : hit.id ∈ req.returned)
    (early : ∀ u, s.updatedAt hit.id = some u → req.start < u + authCacheTTL + requestBound) :
    (get s.now hit.id s.world.revokedMarkers).isSome := by
  obtain ⟨u,e,at_,stored,lives⟩ := inv.returned hit.id (ok.returned _ mem)
  have begun := early u at_
  have live : s.now < e.expiresAt := by
    unfold authCacheTTL requestBound at *
    unfold authRevokedTTL at lives
    omega
  rw [getLive stored live]
  rfl

theorem phaseMoves {env : Environment} {s : State} (inv : Inv s) {req : Request} (ok : RequestOk s req)
    (timely : s.now < req.start + requestBound) {w : World} {phase : Phase}
    (moved : middleware env s.now s.world req.raw req.phase = some (w,phase)) : PhaseOk s req phase := by
  have held := ok.phase
  cases at_ : req.phase with
  | lookup =>
    rw [at_] at moved
    cases Option.some.inj moved
    cases found : get s.now (env.authCacheKey req.raw) s.world.cache with
    | none => trivial
    | some hit =>
      obtain ⟨e,stored,live,rfl⟩ := getSome.mp found
      intro mem u revoked
      have ends := inv.stale _ e u stored revoked
      have begun := ok.started
      omega
  | marker hit =>
    rw [at_] at moved held
    cases Option.some.inj moved
    by_cases seen : (get s.now hit.id s.world.revokedMarkers).isSome = true
    · rw [if_pos seen]
      trivial
    · rw [if_neg seen]
      exact fun mem => seen (markerLives inv ok timely mem (held mem))
  | invalidate =>
    rw [at_] at moved
    cases Option.some.inj moved
    trivial
  | gate =>
    rw [at_] at moved
    cases Option.some.inj moved
    split <;> trivial
  | select =>
    rw [at_] at moved
    cases Option.some.inj moved
    intro c mem
    obtain ⟨row,active⟩ := List.mem_filter.mp mem
    have unrevoked : ∀ u, s.updatedAt c.id ≠ some u := by
      intro u revoked
      have gone := inv.revoked c.id u revoked c row rfl
      simp [gone] at active
    refine ⟨fun early => ?_,fun u revoked => absurd revoked (unrevoked u)⟩
    obtain ⟨u,_,revoked,_⟩ := inv.returned c.id (ok.returned _ early)
    exact unrevoked u revoked
  | verify cands =>
    rw [at_] at moved held
    cases cands with
    | nil =>
      cases Option.some.inj moved
      trivial
    | cons c rest =>
      cases Option.some.inj moved
      split
      · exact held c List.mem_cons_self
      · exact fun x mem => held x (List.mem_cons_of_mem c mem)
  | store k =>
    rw [at_] at moved held
    cases Option.some.inj moved
    exact held.1
  | noteFailure =>
    rw [at_] at moved
    cases Option.some.inj moved
    trivial
  | served k =>
    rw [at_] at moved
    cases moved
  | refused status =>
    rw [at_] at moved
    cases moved

theorem markedKept {s s' : State} {id : UUID} (marked : Marked s id) (updated : s'.updatedAt = s.updatedAt)
    (markers : s'.world.revokedMarkers = s.world.revokedMarkers) : Marked s' id := by
  obtain ⟨u,e,revoked,stored,lives⟩ := marked
  exact ⟨u,e,by rw [updated]; exact revoked,by rw [markers]; exact stored,lives⟩

theorem cacheMoves {env : Environment} {s : State} (inv : Inv s) {req : Request} (ok : RequestOk s req)
    (timely : s.now < req.start + requestBound) {w : World} {phase : Phase}
    (moved : middleware env s.now s.world req.raw req.phase = some (w,phase)) :
    ∀ k e, w.cache k = some e → e.expiresAt ≤ s.now + authCacheTTL ∧
      ∀ u, s.updatedAt e.value.id = some u → e.expiresAt < u + authCacheTTL + requestBound := by
  intro k e stored
  obtain ⟨_,_,same | gone | ⟨key,at_,written⟩⟩ := middlewareWorld moved
  · rw [same] at stored
    exact ⟨inv.lifetime k e stored,fun u => inv.stale k e u stored⟩
  · rw [gone] at stored
    by_cases own : k = env.authCacheKey req.raw
    · rw [own,delSame] at stored
      cases stored
    · rw [delOther own] at stored
      exact ⟨inv.lifetime k e stored,fun u => inv.stale k e u stored⟩
  · rw [written] at stored
    by_cases own : k = env.authCacheKey req.raw
    · rw [own,setSame] at stored
      cases Option.some.inj stored
      have held := ok.phase
      rw [at_] at held
      refine ⟨Nat.le_refl _,fun u revoked => ?_⟩
      have before := held.2 u revoked
      show s.now + authCacheTTL < u + authCacheTTL + requestBound
      omega
    · rw [setOther own] at stored
      exact ⟨inv.lifetime k e stored,fun u => inv.stale k e u stored⟩

theorem invAdvance {env : Environment} {s : State} (inv : Inv s) {r : Nat} {req : Request} {w : World} {phase : Phase}
    (found : s.requests r = some req) (timely : s.now < req.start + requestBound)
    (moved : middleware env s.now s.world req.raw req.phase = some (w,phase)) :
    Inv ({s with world := w}.put r {req with phase := phase}) := by
  have ok := inv.requests r req found
  obtain ⟨keys,markers,_⟩ := middlewareWorld moved
  have cache := cacheMoves inv ok timely moved
  have kept : ∀ id, Marked s id → Marked ({s with world := w}.put r {req with phase := phase}) id :=
    fun id marked => markedKept marked rfl markers
  constructor
  · exact fun k e stored => (cache k e stored).1
  · exact fun k e u stored => (cache k e stored).2 u
  · exact inv.past
  · intro id u revoked row mem
    exact inv.revoked id u revoked row (keys ▸ mem)
  · exact inv.updated
  · exact fun v call running done => kept _ (inv.marked v call running done)
  · exact fun id mem => kept id (inv.returned id mem)
  · refine requestsPut inv rfl rfl rfl rfl ⟨ok.started,ok.returned,?_⟩
    have next := phaseMoves inv ok timely moved
    cases phase <;> exact next

theorem invUpdate {s : State} (inv : Inv s) (v : Nat) (id : UUID) : Inv {s with
    world := s.world.revokeAPIKey id
    revocations := Function.update s.revocations v (some ⟨id,false⟩)
    updatedAt := if (s.updatedAt id).isSome then s.updatedAt else Function.update s.updatedAt id (some s.now)} := by
  -- The history after the UPDATE: the id's first time is now unless it has one.
  obtain ⟨history,set_⟩ : ∃ h, h = if (s.updatedAt id).isSome then s.updatedAt
      else Function.update s.updatedAt id (some s.now) := ⟨_,rfl⟩
  have own : ∃ u, history id = some u := by
    rw [set_]
    cases before : s.updatedAt id with
    | none => exact ⟨s.now,by simp⟩
    | some u => exact ⟨u,by simp [before]⟩
  have old : ∀ j u, s.updatedAt j = some u → history j = some u := by
    intro j u before
    rw [set_]
    split
    · exact before
    · rename_i first
      by_cases same : j = id
      · subst same
        simp [before] at first
      · rw [Function.update_of_ne same]
        exact before
  have cases_ : ∀ j u, history j = some u → s.updatedAt j = some u ∨ j = id ∧ u = s.now := by
    intro j u after
    rw [set_] at after
    split at after
    · exact .inl after
    · rcases updateSome after with ⟨same,now_⟩ | ⟨_,before⟩
      · exact .inr ⟨same,now_⟩
      · exact .inl before
  rw [← set_]
  have kept : ∀ j, Marked s j → ∃ u e, history j = some u ∧ s.world.revokedMarkers j = some e ∧
      u + authRevokedTTL ≤ e.expiresAt := by
    rintro j ⟨u,e,revoked,stored,lives⟩
    exact ⟨u,e,old j u revoked,stored,lives⟩
  constructor
  · exact inv.lifetime
  · intro k e u stored after
    rcases cases_ _ u after with before | ⟨_,rfl⟩
    · exact inv.stale k e u stored before
    · have short := inv.lifetime k e stored
      unfold requestBound
      omega
  · intro j u after
    rcases cases_ j u after with before | ⟨_,rfl⟩
    · exact inv.past j u before
    · exact Nat.le_refl _
  · intro j u after row mem named
    obtain ⟨x,inside,made⟩ := List.mem_map.mp mem
    by_cases hit : x.id = id
    · rw [if_pos hit] at made
      rw [← made]
    · rw [if_neg hit] at made
      subst made
      rcases cases_ j u after with before | ⟨same,_⟩
      · exact inv.revoked j u before x inside named
      · exact absurd (named.trans same) hit
  · intro v' call running
    rcases updateSome running with ⟨_,rfl⟩ | ⟨_,before⟩
    · exact own
    · obtain ⟨u,revoked⟩ := inv.updated v' call before
      exact ⟨u,old _ u revoked⟩
  · intro v' call running done
    rcases updateSome running with ⟨_,rfl⟩ | ⟨_,before⟩
    · cases done
    · exact kept _ (inv.marked v' call before done)
  · exact fun j mem => kept j (inv.returned j mem)
  · refine requestsKept inv (Nat.le_refl _) rfl (fun _ mem => mem) (fun j mem => ?_) (fun j u after => ?_)
    · obtain ⟨u,_,revoked,_⟩ := inv.returned j mem
      rw [revoked]
      exact old j u revoked
    · rcases cases_ j u after with before | ⟨_,rfl⟩
      · exact .inl before
      · exact .inr (Nat.le_refl _)

theorem invMark {s : State} (inv : Inv s) {v : Nat} {id : UUID} (found : s.revocations v = some ⟨id,false⟩) : Inv {s with
    world := {s.world with revokedMarkers := set s.now authRevokedTTL id () s.world.revokedMarkers}
    revocations := Function.update s.revocations v (some ⟨id,true⟩)} := by
  obtain ⟨u,revoked⟩ := inv.updated v _ found
  have kept : ∀ j, j = id ∨ Marked s j → ∃ u e, s.updatedAt j = some u ∧
      set s.now authRevokedTTL id () s.world.revokedMarkers j = some e ∧ u + authRevokedTTL ≤ e.expiresAt := by
    intro j either
    by_cases same : j = id
    · subst same
      exact ⟨u,_,revoked,setSame,Nat.add_le_add_right (inv.past j u revoked) _⟩
    · obtain ⟨u',e,at_,stored,lives⟩ := either.resolve_left same
      exact ⟨u',e,at_,by rw [setOther same]; exact stored,lives⟩
  constructor
  · exact inv.lifetime
  · exact inv.stale
  · exact inv.past
  · exact inv.revoked
  · intro v' call running
    rcases updateSome running with ⟨_,rfl⟩ | ⟨_,before⟩
    · exact ⟨u,revoked⟩
    · exact inv.updated v' call before
  · intro v' call running done
    rcases updateSome running with ⟨_,rfl⟩ | ⟨_,before⟩
    · exact kept id (.inl rfl)
    · exact kept _ (.inr (inv.marked v' call before done))
  · exact fun j mem => kept j (.inr (inv.returned j mem))
  · exact requestsKept inv (Nat.le_refl _) rfl (fun _ mem => mem) (fun _ _ => rfl) (fun _ _ before => .inl before)

theorem invReturn {s : State} (inv : Inv s) {v : Nat} {id : UUID} (found : s.revocations v = some ⟨id,true⟩) :
    Inv {s with returned := id::s.returned} := by
  refine ⟨inv.lifetime,inv.stale,inv.past,inv.revoked,inv.updated,inv.marked,fun j mem => ?_,?_⟩
  · rcases List.mem_cons.mp mem with rfl | before
    · exact inv.marked v _ found rfl
    · exact inv.returned j before
  · exact requestsKept inv (Nat.le_refl _) rfl (fun _ mem => List.mem_cons_of_mem id mem) (fun _ _ => rfl)
      (fun _ _ before => .inl before)

theorem invUpsert {s : State} (inv : Inv s) {k : ApiKey} (new : s.updatedAt k.id = none)
    (active : ∀ row ∈ s.world.apiKeys, row.hashedKey = k.hashedKey → row.revoked = false) :
    Inv {s with world := s.world.upsertAPIKey k} := by
  refine ⟨inv.lifetime,inv.stale,inv.past,?_,inv.updated,inv.marked,inv.returned,?_⟩
  · intro id u revoked row mem named
    simp only [World.upsertAPIKey] at mem
    split at mem
    · obtain ⟨x,inside,made⟩ := List.mem_map.mp mem
      by_cases hit : x.hashedKey = k.hashedKey
      · rw [if_pos hit] at made
        have gone := inv.revoked id u revoked x inside (by rw [← named,← made])
        rw [active x inside hit] at gone
        contradiction
      · rw [if_neg hit] at made
        exact inv.revoked id u revoked row (made ▸ inside) named
    · rcases List.mem_append.mp mem with inside | added
      · exact inv.revoked id u revoked row inside named
      · rw [List.mem_singleton.mp added] at named
        rw [← named,new] at revoked
        cases revoked
  · exact requestsKept inv (Nat.le_refl _) rfl (fun _ mem => mem) (fun _ _ => rfl) (fun _ _ before => .inl before)

theorem invTick {s : State} (inv : Inv s) (d : Nat) : Inv {s with now := s.now + d} := by
  refine ⟨fun k e stored => ?_,inv.stale,fun id u revoked => ?_,inv.revoked,inv.updated,inv.marked,inv.returned,?_⟩
  · have before := inv.lifetime k e stored
    show e.expiresAt ≤ s.now + d + authCacheTTL
    omega
  · exact Nat.le_trans (inv.past id u revoked) (Nat.le_add_right _ _)
  · exact requestsKept inv (Nat.le_add_right _ _) rfl (fun _ mem => mem) (fun _ _ => rfl) (fun _ _ before => .inl before)

theorem invPut {s : State} (inv : Inv s) {r : Nat} {req : Request} (ok : RequestOk s req) : Inv (s.put r req) := by
  refine ⟨inv.lifetime,inv.stale,inv.past,inv.revoked,inv.updated,inv.marked,inv.returned,?_⟩
  refine requestsPut inv rfl rfl rfl rfl ⟨ok.started,ok.returned,?_⟩
  have held := ok.phase
  cases phase : req.phase <;> (rw [phase] at held; exact held)

theorem invStep {env : Environment} (s : State) (a : Label) (s' : State) (inv : Inv s) (allowed : Allowed s a)
    (taken : step env s a = some s') : Inv s' := by
  cases stepMoves taken with
  | @tick d => exact invTick inv d
  | @arrive r header absent =>
    refine invPut inv ⟨Nat.le_refl _,fun _ mem => mem,?_⟩
    simp only [arrival]
    split
    · trivial
    · simp only
      split <;> trivial
  | advance found moved => exact invAdvance inv found (allowed _ found) moved
  | abort found =>
    have ok := inv.requests _ _ found
    exact invPut inv ⟨ok.started,ok.returned,trivial⟩
  | revokeUpdate => exact invUpdate inv _ _
  | revokeMark found => exact invMark inv found
  | revokeReturn found => exact invReturn inv found
  | upsertAPIKey new => exact invUpsert inv new allowed

theorem revokedNeverServed (env : Environment) {keys : List ApiKey} {actions : List Label} {s : State}
    (allowed : Meets (step env) Allowed (initial keys) actions) (ran : run (step env) (initial keys) actions = some s) :
    ∀ r req k, s.requests r = some req → req.phase = .served k → k.id ∉ req.returned := by
  intro r req k found served
  have inv := guardedInvariant invStep (invInitial keys) allowed ran
  have held := (inv.requests r req found).phase
  rw [served] at held
  exact held

def timely (s : State) : Label → Bool
  | .advance r => (s.requests r).all (fun req => decide (s.now < req.start + requestBound))
  | .upsertAPIKey k => s.world.apiKeys.all (fun row => row.hashedKey != k.hashedKey || !row.revoked)
  | _ => true

theorem timelySound (s : State) (a : Label) (ok : timely s a = true) : Allowed s a := by
  cases a with
  | advance r =>
    intro req found
    have early := (Option.all_eq_true _ _).mp ok req found
    exact of_decide_eq_true early
  | upsertAPIKey k =>
    intro row mem same
    simp only [timely,List.all_eq_true] at ok
    have active := ok row mem
    simp only [same,bne_self_eq_false,Bool.false_or,Bool.not_eq_true'] at active
    exact active
  | _ => trivial

def plainEnvironment : Environment where
  authCacheKey raw := raw.map (fun b => Char.ofNat b.toNat)
  verifyAPIKey raw hash := some (hash == raw.map (fun b => Char.ofNat b.toNat))

def apiKey (id : UUID) (raw : String) : ApiKey :=
  ⟨id,raw.toList,raw.toList,(Utf8.bytes raw.toList).take keyPrefixLen,[],false⟩

def bearer (raw : String) : Bytes := Utf8.bytes ("Bearer " ++ raw).toList

def calls (r n : Nat) : List Label := List.replicate n (.advance r)

def rotation : List Label :=
  [Label.arrive 0 (bearer "old-key-1")] ++ calls 0 5 ++ [Label.tick 1000,.revokeUpdate 0 1,.revokeMark 0,.revokeReturn 0] ++
  [Label.tick 2000,.arrive 1 (bearer "old-key-1")] ++ calls 1 7 ++ [Label.arrive 2 (bearer "new-key-2")] ++ calls 2 5

theorem rotationRefused : ∃ s, run (step plainEnvironment) (initial [apiKey 1 "old-key-1",apiKey 2 "new-key-2"]) rotation =
      some s ∧ (s.requests 1).map Request.phase = some (.refused 401) ∧ s.returned = [1] ∧
    (∃ req k, s.requests 2 = some req ∧ req.phase = .served k ∧ req.returned = [1]) ∧
    ∀ r req k, s.requests r = some req → req.phase = .served k → k.id ∉ req.returned := by
  have ran : (run (step plainEnvironment) (initial [apiKey 1 "old-key-1",apiKey 2 "new-key-2"]) rotation).map
      (fun s => ((s.requests 1).map Request.phase,s.returned,(s.requests 2).map (fun req => (req.phase,req.returned)))) =
      some (some (.refused 401),[1],some (.served ⟨2,"new-key-2".toList,[]⟩,[1])) := by decide +kernel
  obtain ⟨s,final,seen⟩ := Option.map_eq_some_iff.mp ran
  have within := meetsChecks timelySound (show checks (step plainEnvironment) timely
    (initial [apiKey 1 "old-key-1",apiKey 2 "new-key-2"]) rotation = true by decide +kernel)
  simp only [Prod.mk.injEq] at seen
  obtain ⟨second,all,third⟩ := seen
  obtain ⟨req,found,parts⟩ := Option.map_eq_some_iff.mp third
  simp only [Prod.mk.injEq] at parts
  exact ⟨s,final,second,all,⟨req,_,found,parts.1,parts.2⟩,revokedNeverServed plainEnvironment within final⟩

end Notifyd.Revocation
