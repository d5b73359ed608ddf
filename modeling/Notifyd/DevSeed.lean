import Notifyd.Auth
import Notifyd.Base64
import Notifyd.Scanning

/-! The dev key that `SeedDevKey` puts into the table on every boot. The upsert is keyed on the hash, and
the hash holds a salt that is drawn anew, so each boot leaves a row of its own. argon2 is a parameter. -/
namespace Notifyd.DevSeed
open Numerals Uuids Base64 Scanning Auth

def argonTime : Nat := 2

def argonMemory : Nat := 64*1024

def argonThreads : Nat := 1

def argonKeyLen : Nat := 32

structure Argon where
  idKey : Bytes → Bytes → Nat → Nat → Nat → Nat → Bytes
  length : ∀ raw salt t m p len, (idKey raw salt t m p len).length = len

variable (argon : Argon)

def digest (raw salt : Bytes) : Bytes := argon.idKey raw salt argonTime argonMemory argonThreads argonKeyLen

def encoded (raw salt : Bytes) : Text :=
  List.intercalate ['$'] ["argon2id".toList,"2".toList,"65536".toList,"1".toList,stdEncode salt,
    stdEncode (digest argon raw salt)]

def hashAPIKey (raw salt : Bytes) : Option (Text × Bytes) :=
  if raw.length < keyPrefixLen then none else some (encoded argon raw salt,raw.take keyPrefixLen)

def verifyAPIKey (raw : Bytes) (hash : Text) : Option Bool :=
  match hash.splitOn '$' with
  | [name,time,memory,threads,salt,want] => do
    if name = "argon2id".toList then
      let t ← scanUint 32 time
      let m ← scanUint 32 memory
      let p ← scanUint 8 threads
      let salt ← stdDecode salt
      let want ← stdDecode want
      some (want == argon.idKey raw salt t m p want.length)
    else none
  | _ => none

def devSeedName : Text := "dev-seed".toList

def scopes : List Text := ["notifications:read".toList,"notifications:write".toList,"admin".toList]

structure Boot where
  salt : Bytes
  id : UUID
  deriving DecidableEq, Repr

/- Postgres takes the bytes for a text: they are those of characters, and none of these is zero. -/
def textColumn (bs : Bytes) : Bool := Utf8.bytes (Utf8.text bs) == bs && !bs.contains 0

def seedDevKey (raw : Bytes) (boot : Boot) (w : World) : Option World := do
  if raw = [] then none else
  let (hash,keyPrefix) ← hashAPIKey argon raw boot.salt
  if textColumn keyPrefix then some (w.upsertAPIKey ⟨boot.id,devSeedName,hash,keyPrefix,scopes,false⟩) else none

def boots (raw : Bytes) : World → List Boot → Option World
  | w,[] => some w
  | w,boot::rest => do
    let next ← seedDevKey argon raw boot w
    boots raw next rest

def rowOf (raw : Bytes) (boot : Boot) : ApiKey :=
  ⟨boot.id,devSeedName,encoded argon raw boot.salt,raw.take keyPrefixLen,scopes,false⟩

def devSeedRows (raw : Bytes) (w : World) : List ApiKey :=
  w.apiKeys.filter (fun k => !k.revoked && k.name == devSeedName && verifyAPIKey argon raw k.hashedKey == some true)

def matching (raw : Bytes) (w : World) : List ApiKey :=
  (w.listActiveAPIKeysByPrefix (raw.take keyPrefixLen)).filter
    (fun k => verifyAPIKey argon raw k.hashedKey == some true)

def Unknown (raw : Bytes) (w : World) : Prop := ∀ k ∈ w.apiKeys, verifyAPIKey argon raw k.hashedKey ≠ some true

structure Idempotent (raw : Bytes) (first : Boot) (w : World) : Prop where
  row : (devSeedRows argon raw w).map ApiKey.id = [first.id]
  owner : ∀ k ∈ matching argon raw w, k.id = first.id
  revocable : matching argon raw (w.revokeAPIKey first.id) = []

variable {argon} {raw : Bytes}

theorem encodedSplit (raw salt : Bytes) : (encoded argon raw salt).splitOn '$' =
    ["argon2id".toList,"2".toList,"65536".toList,"1".toList,stdEncode salt,stdEncode (digest argon raw salt)] := by
  refine List.splitOn_intercalate '$' ?_ (List.cons_ne_nil _ _)
  simp only [List.forall_mem_cons]
  exact ⟨by decide,by decide,by decide,by decide,stdEncodePlain,stdEncodePlain,nofun⟩

theorem verifyEncoded (raw salt presented : Bytes) : verifyAPIKey argon presented (encoded argon raw salt) =
    some (digest argon raw salt == digest argon presented salt) := by
  have time : scanUint 32 "2".toList = some argonTime := by decide
  have memory : scanUint 32 "65536".toList = some argonMemory := by decide
  have threads : scanUint 8 "1".toList = some argonThreads := by decide
  have long : (digest argon raw salt).length = argonKeyLen := argon.length ..
  unfold verifyAPIKey
  rw [encodedSplit]
  simp only [if_true,time,memory,threads,stdDecodeEncode,long,Option.bind_eq_bind,Option.bind_some]
  rfl

theorem verifyOwn (raw salt : Bytes) : verifyAPIKey argon raw (encoded argon raw salt) = some true := by
  rw [verifyEncoded,beq_self_eq_true]

theorem encodedInjective {salt salt' : Bytes} (same : encoded argon raw salt = encoded argon raw salt') : salt = salt' := by
  have parts := congrArg (List.splitOn '$') same
  rw [encodedSplit,encodedSplit] at parts
  have texts : stdEncode salt = stdEncode salt' := by
    injection parts with _ parts
    injection parts with _ parts
    injection parts with _ parts
    injection parts with _ parts
    injection parts
  have back := congrArg stdDecode texts
  rw [stdDecodeEncode,stdDecodeEncode] at back
  exact Option.some.inj back

theorem seedAppends (long : keyPrefixLen ≤ raw.length) (taken : textColumn (raw.take keyPrefixLen) = true)
    {boot : Boot} {w : World}
    (new : ∀ k ∈ w.apiKeys, k.hashedKey ≠ encoded argon raw boot.salt) :
    seedDevKey argon raw boot w = some {w with apiKeys := w.apiKeys ++ [rowOf argon raw boot]} := by
  have given : raw ≠ [] := by
    rintro rfl
    exact absurd long (by decide)
  have absent : w.apiKeys.any (fun row => row.hashedKey == encoded argon raw boot.salt) = false := by
    rw [List.any_eq_false]
    intro k mem
    simpa using new k mem
  have hashed : hashAPIKey argon raw boot.salt = some (encoded argon raw boot.salt,raw.take keyPrefixLen) :=
    if_neg (Nat.not_lt.mpr long)
  simp only [seedDevKey,if_neg given,hashed,Option.bind_eq_bind,Option.bind_some,taken,World.upsertAPIKey,absent,
    Bool.false_eq_true,if_true,if_false]
  rfl

theorem seedRefused (long : keyPrefixLen ≤ raw.length) (refused : textColumn (raw.take keyPrefixLen) = false)
    (boot : Boot) (w : World) :
    seedDevKey argon raw boot w = none := by
  unfold seedDevKey hashAPIKey
  rw [if_neg (Nat.not_lt.mpr long)]
  split
  · rfl
  · simp only [Option.bind_eq_bind,Option.bind_some,refused,Bool.false_eq_true,if_false]

theorem bootsAppend (long : keyPrefixLen ≤ raw.length) (taken : textColumn (raw.take keyPrefixLen) = true) {w : World}
    {bs : List Boot}
    (new : ∀ k ∈ w.apiKeys, ∀ boot ∈ bs, k.hashedKey ≠ encoded argon raw boot.salt)
    (salts : (bs.map Boot.salt).Nodup) :
    boots argon raw w bs = some {w with apiKeys := w.apiKeys ++ bs.map (rowOf argon raw)} := by
  induction bs generalizing w with
  | nil => simp [boots]
  | cons boot rest ih =>
    obtain ⟨fresh,others⟩ := List.nodup_cons.mp salts
    rw [boots,seedAppends long taken fun k mem => new k mem boot List.mem_cons_self]
    have later : ∀ k ∈ w.apiKeys ++ [rowOf argon raw boot], ∀ b ∈ rest, k.hashedKey ≠ encoded argon raw b.salt := by
      intro k mem b inside
      rcases List.mem_append.mp mem with old | own
      · exact new k old b (List.mem_cons_of_mem _ inside)
      · rw [List.mem_singleton.mp own]
        intro same
        exact fresh (encodedInjective same ▸ List.mem_map_of_mem inside)
    simp only [Option.bind_eq_bind,Option.bind_some]
    rw [ih later others]
    simp

theorem unknownNew {w : World} (unknown : Unknown argon raw w) (bs : List Boot) :
    ∀ k ∈ w.apiKeys, ∀ boot ∈ bs, k.hashedKey ≠ encoded argon raw boot.salt := by
  intro k mem boot _ same
  exact unknown k mem (same ▸ verifyOwn raw boot.salt)

theorem devSeedRowsAfter {w : World} (unknown : Unknown argon raw w) (bs : List Boot) :
    devSeedRows argon raw {w with apiKeys := w.apiKeys ++ bs.map (rowOf argon raw)} = bs.map (rowOf argon raw) := by
  have old : w.apiKeys.filter (fun k => !k.revoked && k.name == devSeedName &&
      verifyAPIKey argon raw k.hashedKey == some true) = [] := by
    rw [List.filter_eq_nil_iff]
    intro k mem
    simp [unknown k mem]
  have all : ∀ k ∈ bs.map (rowOf argon raw), (!k.revoked && k.name == devSeedName &&
      verifyAPIKey argon raw k.hashedKey == some true) = true := by
    intro k mem
    obtain ⟨boot,_,rfl⟩ := List.mem_map.mp mem
    simp [rowOf,verifyOwn]
  rw [devSeedRows,List.filter_append,old,List.nil_append,List.filter_eq_self.mpr all]

theorem matchingBooted {w : World} (unknown : Unknown argon raw w) {bs : List Boot} {k : ApiKey}
    (mem : k ∈ matching argon raw {w with apiKeys := w.apiKeys ++ bs.map (rowOf argon raw)}) :
    ∃ boot ∈ bs, k = rowOf argon raw boot := by
  obtain ⟨candidate,verified⟩ := List.mem_filter.mp mem
  obtain ⟨stored,_⟩ := List.mem_filter.mp candidate
  rcases List.mem_append.mp stored with old | added
  · exact absurd (eq_of_beq verified) (unknown k old)
  · obtain ⟨boot,inside,rfl⟩ := List.mem_map.mp added
    exact ⟨boot,inside,rfl⟩

theorem revokedMatching {w : World} (unknown : Unknown argon raw w) (boot : Boot) :
    matching argon raw (World.revokeAPIKey {w with apiKeys := w.apiKeys ++ [rowOf argon raw boot]} boot.id) = [] := by
  rw [matching,List.filter_eq_nil_iff]
  intro k candidate verified
  obtain ⟨stored,active⟩ := List.mem_filter.mp candidate
  obtain ⟨row,inside,rfl⟩ := List.mem_map.mp stored
  rcases List.mem_append.mp inside with old | own
  · have known := eq_of_beq verified
    split at known
    · exact unknown row old known
    · exact unknown row old known
  · rw [List.mem_singleton.mp own] at active
    simp [rowOf] at active

theorem onceIdempotent {w : World} (unknown : Unknown argon raw w) (boot : Boot) :
    Idempotent argon raw boot {w with apiKeys := w.apiKeys ++ [boot].map (rowOf argon raw)} := by
  refine ⟨?_,?_,revokedMatching unknown boot⟩
  · rw [devSeedRowsAfter unknown]
    rfl
  · intro k mem
    obtain ⟨own,inside,rfl⟩ := matchingBooted unknown mem
    rw [List.mem_singleton.mp inside]
    rfl

theorem idempotentOnce {w : World} (unknown : Unknown argon raw w) {first : Boot} {rest : List Boot}
    (once : Idempotent argon raw first {w with apiKeys := w.apiKeys ++ (first::rest).map (rowOf argon raw)}) :
    rest = [] := by
  have ids := once.row
  rw [devSeedRowsAfter unknown] at ids
  have lengths := congrArg List.length ids
  simpa using lengths

/-- The boots leave a table for which the seeding is idempotent exactly after a single one. With a key whose first bytes
are no text the first boot fails already. -/
theorem seedingIdempotentIff {w : World} {first : Boot} {rest : List Boot} (long : keyPrefixLen ≤ raw.length)
    (unknown : Unknown argon raw w) (salts : ((first::rest).map Boot.salt).Nodup) :
    (textColumn (raw.take keyPrefixLen) = true → ∃ after, boots argon raw w (first::rest) = some after ∧
      (Idempotent argon raw first after ↔ rest = [])) ∧
    (textColumn (raw.take keyPrefixLen) = false → boots argon raw w (first::rest) = none) := by
  refine ⟨fun taken => ⟨_,bootsAppend long taken (unknownNew unknown _) salts,idempotentOnce unknown,?_⟩,fun refused => ?_⟩
  · rintro rfl
    exact onceIdempotent unknown first
  · rw [boots,seedRefused long refused]
    rfl

def blank : Argon := ⟨fun _ _ _ _ _ len => List.replicate len 0,fun _ _ _ _ _ _ => List.length_replicate ..⟩

def devKey : Bytes := Utf8.bytes "dev-key-0".toList

def noKeys : World := ⟨[],fun _ => none,fun _ => none,fun _ => none⟩

theorem devKeyTaken : textColumn (devKey.take keyPrefixLen) = true := by decide +kernel

theorem bootedOnce : ∃ after, boots blank devKey noKeys [⟨[1],1⟩] = some after ∧ Idempotent blank devKey ⟨[1],1⟩ after := by
  have long : keyPrefixLen ≤ devKey.length := by decide +kernel
  have unknown : Unknown blank devKey noKeys := nofun
  have salts : ([⟨[1],1⟩].map Boot.salt).Nodup := by decide
  obtain ⟨after,booted,exactly⟩ := (seedingIdempotentIff long unknown salts).1 devKeyTaken
  exact ⟨after,booted,exactly.mpr rfl⟩

theorem bootedTwice : ¬ ∀ (argon : Argon) (raw : Bytes) (w after : World) (first : Boot) (rest : List Boot),
    keyPrefixLen ≤ raw.length → Unknown argon raw w → ((first::rest).map Boot.salt).Nodup →
    boots argon raw w (first::rest) = some after → Idempotent argon raw first after := by
  intro idempotent
  have long : keyPrefixLen ≤ devKey.length := by decide +kernel
  have unknown : Unknown blank devKey noKeys := nofun
  have salts : ([⟨[1],1⟩,⟨[2],2⟩].map Boot.salt).Nodup := by decide
  have once := idempotent blank devKey noKeys _ ⟨[1],1⟩ [⟨[2],2⟩] long unknown salts
    (bootsAppend long devKeyTaken (unknownNew unknown _) salts)
  cases idempotentOnce unknown once

end Notifyd.DevSeed
