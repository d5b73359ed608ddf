import Notifyd.DevSeed

/-! The round trip of `HashAPIKey` and `VerifyAPIKey` through the text in `api_keys.hashed_key`, and the
prefix that leads the middleware to it. -/
namespace Notifyd.KeyHashes
open Numerals Auth DevSeed

variable {argon : Argon} {raw : Bytes}

theorem hashRoundTrips (long : keyPrefixLen ≤ raw.length) (salt : Bytes) :
    ∃ hash keyPrefix, hashAPIKey argon raw salt = some (hash,keyPrefix) ∧
      (∀ presented, ∃ verdict, verifyAPIKey argon presented hash = some verdict ∧
        (verdict = true ↔ argon.idKey presented salt argonTime argonMemory argonThreads argonKeyLen =
          argon.idKey raw salt argonTime argonMemory argonThreads argonKeyLen)) ∧
      verifyAPIKey argon raw hash = some true ∧
      ∀ env now w, middleware env now w raw .select = some (w,.verify (w.listActiveAPIKeysByPrefix keyPrefix)) := by
  refine ⟨encoded argon raw salt,raw.take keyPrefixLen,if_neg (Nat.not_lt.mpr long),?_,verifyOwn raw salt,?_⟩
  · intro presented
    refine ⟨_,verifyEncoded raw salt presented,?_⟩
    rw [beq_iff_eq,eq_comm]
    rfl
  · intro env now w
    rfl

def padded : Argon where
  idKey raw _ _ _ _ len := (raw ++ List.replicate len 0).take len
  length raw _ _ _ _ len := by
    rw [List.length_take,List.length_append,List.length_replicate,Nat.min_eq_left (Nat.le_add_left ..)]

def otherKey : Bytes := Utf8.bytes "dev-key-1".toList

theorem paddedRoundTrips : ∃ hash, hashAPIKey padded devKey (List.replicate 16 7) = some (hash,devKey.take 8) ∧
    verifyAPIKey padded devKey hash = some true ∧ verifyAPIKey padded otherKey hash = some false := by
  obtain ⟨hash,keyPrefix,hashed,compares,own,_⟩ := @hashRoundTrips padded devKey (by decide) (List.replicate 16 7)
  have short : ¬ devKey.length < keyPrefixLen := by decide
  rw [hashAPIKey,if_neg short] at hashed
  cases Option.some.inj hashed
  obtain ⟨verdict,verified,same⟩ := compares otherKey
  have differ : padded.idKey otherKey (List.replicate 16 7) argonTime argonMemory argonThreads argonKeyLen ≠
      padded.idKey devKey (List.replicate 16 7) argonTime argonMemory argonThreads argonKeyLen := by decide
  rw [Bool.eq_false_iff.mpr (fun accepted => differ (same.mp accepted))] at verified
  exact ⟨_,if_neg short,own,verified⟩

end Notifyd.KeyHashes
