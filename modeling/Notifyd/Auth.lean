import Notifyd.Expiring
import Notifyd.Runs
import Notifyd.Uuids
import Notifyd.Utf8

/-! The authentication middleware and the revocation of API keys: requests and revocations run one Redis
command or SQL statement at a time, interleaved in any way. sha256 and argon2 are parameters. Times are
milliseconds. -/
namespace Notifyd.Auth
open Numerals Uuids Expiring

def authCacheTTL : Nat := 60000

def authRevokedTTL : Nat := 300000

def authFailureWindow : Nat := 60000

def authFailureLimit : Nat := 20

def keyPrefixLen : Nat := 8

structure ApiKey where
  id : UUID
  name : Text
  hashedKey : Text
  keyPrefix : Bytes
  scopes : List Text
  revoked : Bool
  deriving DecidableEq, Repr

structure AuthedKey where
  id : UUID
  name : Text
  scopes : List Text
  deriving DecidableEq, Repr

structure Environment where
  authCacheKey : Bytes → Text
  verifyAPIKey : Bytes → Text → Option Bool

structure World where
  apiKeys : List ApiKey
  cache : Cache Text AuthedKey
  revokedMarkers : Cache UUID Unit
  failures : Cache Bytes Nat

inductive Phase where
  | lookup
  | marker (hit : AuthedKey)
  | invalidate
  | gate
  | select
  | verify (cands : List ApiKey)
  | store (k : AuthedKey)
  | noteFailure
  | served (k : AuthedKey)
  | refused (status : Nat)
  deriving DecidableEq, Repr

def extractBearer (header : Bytes) : Option Bytes :=
  let bearer := Utf8.bytes "Bearer ".toList
  if bearer.isPrefixOf header ∧ header.drop bearer.length ≠ [] then some (header.drop bearer.length) else none

def World.listActiveAPIKeysByPrefix (w : World) (keyPrefix : Bytes) : List ApiKey :=
  w.apiKeys.filter (fun k => k.keyPrefix == keyPrefix && !k.revoked)

def middleware (env : Environment) (now : Nat) (w : World) (raw : Bytes) : Phase → Option (World × Phase)
  | .lookup => some (w,match get now (env.authCacheKey raw) w.cache with
    | some hit => .marker hit
    | none => .gate)
  | .marker hit => some (w,if (get now hit.id w.revokedMarkers).isSome then .invalidate else .served hit)
  | .invalidate => some ({w with cache := del (env.authCacheKey raw) w.cache},.gate)
  | .gate =>
    let locked := (get now (raw.take keyPrefixLen) w.failures).any (fun n => decide (authFailureLimit < n))
    some (w,if locked then .refused 429 else .select)
  | .select => some (w,.verify (w.listActiveAPIKeysByPrefix (raw.take keyPrefixLen)))
  | .verify [] => some (w,.noteFailure)
  | .verify (c::rest) => some (w,if env.verifyAPIKey raw c.hashedKey = some true then .store ⟨c.id,c.name,c.scopes⟩
    else .verify rest)
  | .store k => some ({w with cache := set now authCacheTTL (env.authCacheKey raw) k w.cache},.served k)
  | .noteFailure =>
    let n := (get now (raw.take keyPrefixLen) w.failures).getD 0 + 1
    some ({w with failures := set now authFailureWindow (raw.take keyPrefixLen) n w.failures},.refused 401)
  | .served _ => none
  | .refused _ => none

structure Request where
  raw : Bytes
  start : Nat
  returned : List UUID
  phase : Phase

structure Revocation where
  id : UUID
  marked : Bool

structure State where
  now : Nat
  world : World
  requests : Nat → Option Request
  revocations : Nat → Option Revocation
  updatedAt : UUID → Option Nat
  returned : List UUID

inductive Label where
  | tick (d : Nat)
  | arrive (r : Nat) (header : Bytes)
  | advance (r : Nat)
  | abort (r : Nat)
  | revokeUpdate (v : Nat) (id : UUID)
  | revokeMark (v : Nat)
  | revokeReturn (v : Nat)
  | upsertAPIKey (k : ApiKey)

def State.put (s : State) (r : Nat) (req : Request) : State :=
  {s with requests := Function.update s.requests r (some req)}

def initial (keys : List ApiKey) : State :=
  ⟨0,⟨keys,fun _ => none,fun _ => none,fun _ => none⟩,fun _ => none,fun _ => none,fun _ => none,[]⟩

def arrival (header : Bytes) : Bytes × Phase :=
  match extractBearer header with
  | none => ([],.refused 401)
  | some raw => (raw,if raw.length < keyPrefixLen then .refused 401 else .lookup)

def World.revokeAPIKey (w : World) (id : UUID) : World :=
  {w with apiKeys := w.apiKeys.map (fun k => if k.id = id then {k with revoked := true} else k)}

def World.upsertAPIKey (w : World) (k : ApiKey) : World :=
  {w with apiKeys := if w.apiKeys.any (fun row => row.hashedKey == k.hashedKey) then
      w.apiKeys.map (fun row => if row.hashedKey = k.hashedKey then {k with id := row.id, revoked := false} else row)
    else w.apiKeys ++ [{k with revoked := false}]}

/- The SELECT of a request may fail, the commands to Redis do not. The generated id of a new key is not one that a
revocation has named before. -/
def step (env : Environment) (s : State) : Label → Option State
  | .tick d => some {s with now := s.now + d}
  | .arrive r header => match s.requests r with
    | none => some (s.put r ⟨(arrival header).1,s.now,s.returned,(arrival header).2⟩)
    | some _ => none
  | .advance r => do
    let req ← s.requests r
    let (world,phase) ← middleware env s.now s.world req.raw req.phase
    some ({s with world := world}.put r {req with phase := phase})
  | .abort r => match s.requests r with
    | some ⟨raw,start,returned,.select⟩ => some (s.put r ⟨raw,start,returned,.refused 500⟩)
    | _ => none
  | .revokeUpdate v id => match s.revocations v with
    | none => some {s with
        world := s.world.revokeAPIKey id
        revocations := Function.update s.revocations v (some ⟨id,false⟩)
        updatedAt := if (s.updatedAt id).isSome then s.updatedAt else Function.update s.updatedAt id (some s.now)}
    | some _ => none
  | .revokeMark v => match s.revocations v with
    | some ⟨id,false⟩ => some {s with
        world := {s.world with revokedMarkers := set s.now authRevokedTTL id () s.world.revokedMarkers}
        revocations := Function.update s.revocations v (some ⟨id,true⟩)}
    | _ => none
  | .revokeReturn v => match s.revocations v with
    | some ⟨id,true⟩ => some {s with returned := id::s.returned}
    | _ => none
  | .upsertAPIKey k => if s.updatedAt k.id = none ∧ k.id ∉ s.world.apiKeys.map ApiKey.id then
      some {s with world := s.world.upsertAPIKey k} else none

inductive Moves (env : Environment) (s : State) : Label → State → Prop where
  | tick {d} : Moves env s (.tick d) {s with now := s.now + d}
  | arrive {r header} (absent : s.requests r = none) :
      Moves env s (.arrive r header) (s.put r ⟨(arrival header).1,s.now,s.returned,(arrival header).2⟩)
  | advance {r req world phase} (found : s.requests r = some req)
      (moved : middleware env s.now s.world req.raw req.phase = some (world,phase)) :
      Moves env s (.advance r) ({s with world := world}.put r {req with phase := phase})
  | abort {r req} (found : s.requests r = some req) : Moves env s (.abort r) (s.put r {req with phase := .refused 500})
  | revokeUpdate {v id} : Moves env s (.revokeUpdate v id) {s with
      world := s.world.revokeAPIKey id
      revocations := Function.update s.revocations v (some ⟨id,false⟩)
      updatedAt := if (s.updatedAt id).isSome then s.updatedAt else Function.update s.updatedAt id (some s.now)}
  | revokeMark {v id} (found : s.revocations v = some ⟨id,false⟩) : Moves env s (.revokeMark v) {s with
      world := {s.world with revokedMarkers := set s.now authRevokedTTL id () s.world.revokedMarkers}
      revocations := Function.update s.revocations v (some ⟨id,true⟩)}
  | revokeReturn {v id} (found : s.revocations v = some ⟨id,true⟩) :
      Moves env s (.revokeReturn v) {s with returned := id::s.returned}
  | upsertAPIKey {k} (new : s.updatedAt k.id = none) :
      Moves env s (.upsertAPIKey k) {s with world := s.world.upsertAPIKey k}

theorem stepMoves {env : Environment} {s s' : State} {a : Label} (taken : step env s a = some s') : Moves env s a s' := by
  cases a with
  | tick d =>
    cases Option.some.inj taken
    exact .tick
  | arrive r header =>
    simp only [step] at taken
    split at taken <;> try contradiction
    rename_i absent
    cases Option.some.inj taken
    exact .arrive absent
  | advance r =>
    simp only [step,Option.bind_eq_bind,Option.bind_eq_some_iff] at taken
    obtain ⟨req,found,⟨world,phase⟩,moved,next⟩ := taken
    cases Option.some.inj next
    exact .advance found moved
  | abort r =>
    simp only [step] at taken
    split at taken <;> try contradiction
    rename_i found
    cases Option.some.inj taken
    exact .abort found
  | revokeUpdate v id =>
    simp only [step] at taken
    split at taken <;> try contradiction
    cases Option.some.inj taken
    exact .revokeUpdate
  | revokeMark v =>
    simp only [step] at taken
    split at taken <;> try contradiction
    rename_i found
    cases Option.some.inj taken
    exact .revokeMark found
  | revokeReturn v =>
    simp only [step] at taken
    split at taken <;> try contradiction
    rename_i found
    cases Option.some.inj taken
    exact .revokeReturn found
  | upsertAPIKey k =>
    simp only [step] at taken
    split at taken <;> try contradiction
    rename_i new
    cases Option.some.inj taken
    exact .upsertAPIKey new.1

theorem middlewareWorld {env : Environment} {now : Nat} {w w' : World} {raw : Bytes} {phase phase' : Phase}
    (moved : middleware env now w raw phase = some (w',phase')) :
    w'.apiKeys = w.apiKeys ∧ w'.revokedMarkers = w.revokedMarkers ∧ (w'.cache = w.cache ∨
      w'.cache = del (env.authCacheKey raw) w.cache ∨
      ∃ k, phase = .store k ∧ w'.cache = set now authCacheTTL (env.authCacheKey raw) k w.cache) := by
  unfold middleware at moved
  split at moved
  all_goals first
    | contradiction
    | (cases Option.some.inj moved; exact ⟨rfl,rfl,.inl rfl⟩)
    | (cases Option.some.inj moved; exact ⟨rfl,rfl,.inr (.inl rfl)⟩)
    | (cases Option.some.inj moved; exact ⟨rfl,rfl,.inr (.inr ⟨_,rfl,rfl⟩)⟩)

end Notifyd.Auth
