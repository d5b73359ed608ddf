import Notifyd.AuditChain
import Notifyd.Calendar
import Notifyd.Utf8
import Mathlib.Logic.Function.Basic

/-! What VerifyAuditChain sees of an edited or deleted row. An edit shows when it changes the bytes the
row_hash covers, a deletion when a kept row no longer follows the row its prev_hash names; the texts of
the columns are joined with a separator they may contain, and the first and the last row are not pinned. -/
namespace Notifyd.AuditTamper
open Numerals JsonText AuditChain Ordered

variable {τ : Type}

def tamper (edit : AuditRow τ → Content τ) (rows : List (AuditRow τ)) : List (AuditRow τ) :=
  rows.map (fun r => {r with content := edit r})

def hashInput (e : Engine τ) (r : AuditRow τ) : Option Bytes :=
  (canonicalBytes e r.id r.content).map (fun canonical => r.prevHash.getD genesis ++ canonical)

theorem expectedOfInput (e : Engine τ) (r : AuditRow τ) : expectedRowHash e r = (hashInput e r).map e.digest := by
  rw [expectedRowHash,hashInput,Option.map_map]
  rfl

theorem sealedInput {e : Engine τ} {r : AuditRow τ} : Sealed e r ↔
    (hashInput e r).isSome ∧ r.rowHash = (hashInput e r).map e.digest := by
  rw [Sealed,expectedOfInput]
  cases hashInput e r <;> simp

theorem sameHash {e : Engine τ} (injective : Function.Injective e.digest) {r p : AuditRow τ} (left : Sealed e r)
    (right : Sealed e p) : r.rowHash = p.rowHash ↔ hashInput e r = hashInput e p := by
  rw [(sealedInput.mp left).2,(sealedInput.mp right).2]
  exact (Option.map_injective injective).eq_iff

theorem editSealed {e : Engine τ} (injective : Function.Injective e.digest) {r : AuditRow τ} (own : Sealed e r)
    (c : Content τ) : Sealed e {r with content := c} ↔
      canonicalBytes e r.id c = canonicalBytes e r.id r.content := by
  have stored := sealedInput.mp own
  have prepends : Function.Injective (fun canonical : Bytes => r.prevHash.getD genesis ++ canonical) :=
    fun _ _ same => List.append_cancel_left same
  rw [sealedInput]
  constructor
  · rintro ⟨_,hash⟩
    have same := Option.map_injective injective (hash.symm.trans stored.2)
    exact Option.map_injective prepends same
  · intro same
    have input : hashInput e {r with content := c} = hashInput e r := by
      rw [hashInput,hashInput,same]
    rw [input]
    exact stored

theorem editIntact {e : Engine τ} (injective : Function.Injective e.digest) {rows : List (AuditRow τ)}
    (intact : Intact e rows) (edit : AuditRow τ → Content τ) : Intact e (tamper edit rows) ↔
      ∀ r ∈ rows, canonicalBytes e r.id (edit r) = canonicalBytes e r.id r.content := by
  constructor
  · intro after r mem
    exact (editSealed injective (intact.rowsSealed r mem) _).mp (after.rowsSealed _ (List.mem_map_of_mem mem))
  · intro same
    constructor
    · rw [Distinct,tamper,List.map_map]
      exact intact.distinct
    · intro x mem
      obtain ⟨r,inside,rfl⟩ := List.mem_map.mp mem
      exact (editSealed injective (intact.rowsSealed r inside) _).mpr (same r inside)
    · have ordered : orderBy AuditRow.id (tamper edit rows) = _ := orderMap _ (fun _ => rfl) intact.distinct
      rw [ordered,List.isChain_map]
      exact intact.linked

def plain (t : Text) : Prop := '|' ∉ t ∧ '\\' ∉ t

structure PlainColumns (e : Engine τ) (c : Content τ) : Prop where
  actor : plain c.actor
  target : ∀ t, c.targetId = some t → plain t ∧ t ≠ []
  details : '\\' ∉ render jsonbStyle c.details
  stamp : plain (e.atText c.stamp)

theorem byteaPlain {t : Text} (slashless : '\\' ∉ t) (rest : Text) :
    bytea (t ++ rest) = (bytea rest).map (fun bs => t.flatMap String.utf8EncodeChar ++ bs) := by
  induction t with
  | nil => simp
  | cons c t ih =>
    have own : c ≠ '\\' := fun same => slashless (by simp [same])
    have later := ih (fun mem => slashless (List.mem_cons_of_mem c mem))
    rw [List.cons_append,bytea.eq_5]
    · rw [later,Option.map_map]
      simp [Function.comp_def]
    all_goals simp [own]

theorem idPlain {id : Nat} : plain (Nat.toDigits 10 id) := by
  constructor
  all_goals
    intro mem
    have digit := Nat.isDigit_of_mem_toDigits (b := 10) (by decide) (by decide) mem
    contradiction

theorem uuidPlain (u : Uuids.UUID) : plain (Uuids.string u) := by
  have hex : ∀ d < 16, d.digitChar ≠ '|' ∧ d.digitChar ≠ '\\' := by decide
  have chars : ∀ c ∈ Uuids.string u, c ≠ '|' ∧ c ≠ '\\' := by
    intro c mem
    rcases Uuids.stringChars mem with rfl | digit
    · decide
    · obtain ⟨d,inside,rfl⟩ := List.mem_map.mp digit
      exact hex d (digitsBelow (by decide) inside)
  exact ⟨fun mem => (chars _ mem).1 rfl,fun mem => (chars _ mem).2 rfl⟩

theorem actorIdPlain (u : Option Uuids.UUID) : plain ((u.map Uuids.string).getD []) := by
  cases u with
  | none => exact ⟨List.not_mem_nil,List.not_mem_nil⟩
  | some u => exact uuidPlain u

theorem actionPlain (a : Action) : plain a.text := by
  unfold plain
  cases a <;> decide

theorem targetPlain {e : Engine τ} {c : Content τ} (columns : PlainColumns e c) : plain (c.targetId.getD []) := by
  cases target : c.targetId with
  | none => exact ⟨List.not_mem_nil,List.not_mem_nil⟩
  | some t => exact (columns.target t target).1

theorem canonicalSlashless {e : Engine τ} {c : Content τ} (columns : PlainColumns e c) (id : Nat) :
    '\\' ∉ adminAuditCanonical e id c := by
  have bar : '\\' ≠ '|' := by decide
  simp only [adminAuditCanonical,List.mem_append,List.mem_cons,bar,false_or,not_or]
  exact ⟨idPlain.2,columns.actor.2,(actorIdPlain _).2,(actionPlain _).2,(targetPlain columns).2,columns.details,
    columns.stamp.2⟩

theorem slashlessBytes {t : Text} (slashless : '\\' ∉ t) : bytea t = some (t.flatMap String.utf8EncodeChar) := by
  have whole := byteaPlain slashless []
  rw [List.append_nil] at whole
  rw [whole]
  simp [bytea]

theorem splitFirst {α : Type} {bar : α} {a b x y : List α} (left : bar ∉ a) (right : bar ∉ b)
    (same : a ++ bar::x = b ++ bar::y) : a = b ∧ x = y := by
  induction a generalizing b with
  | nil => cases b with
    | nil => exact ⟨rfl,(List.cons.inj same).2⟩
    | cons c b => exact absurd ((List.cons.inj same).1 ▸ List.mem_cons_self) right
  | cons c a ih => cases b with
    | nil => exact absurd ((List.cons.inj same).1 ▸ List.mem_cons_self) left
    | cons d b =>
      obtain ⟨first,rest⟩ := List.cons.inj same
      obtain ⟨inner,tail⟩ := ih (fun mem => left (List.mem_cons_of_mem c mem))
        (fun mem => right (List.mem_cons_of_mem d mem)) rest
      exact ⟨by rw [first,inner],tail⟩

theorem splitLast {α : Type} {bar : α} {a b x y : List α} (left : bar ∉ x) (right : bar ∉ y)
    (same : a ++ bar::x = b ++ bar::y) : a = b ∧ x = y := by
  have mirrored : x.reverse ++ bar::a.reverse = y.reverse ++ bar::b.reverse := by
    have flipped := congrArg List.reverse same
    simpa using flipped
  obtain ⟨last,first⟩ := splitFirst (by simpa using left) (by simpa using right) mirrored
  exact ⟨List.reverse_injective first,List.reverse_injective last⟩

theorem actorIdInjective {u v : Option Uuids.UUID} (same : (u.map Uuids.string).getD [] = (v.map Uuids.string).getD []) :
    u = v := by
  have some_ : ∀ w, Uuids.string w ≠ [] := fun w empty => by
    have length := Uuids.stringLength w
    rw [empty] at length
    simp at length
  cases u with
  | none => cases v with
    | none => rfl
    | some v => exact absurd same.symm (some_ v)
  | some u => cases v with
    | none => exact absurd same (some_ u)
    | some v => exact congrArg some (Uuids.stringInjective same)

theorem actionInjective {a b : Action} (same : a.text = b.text) : a = b := by
  cases a <;> cases b <;> first | rfl | (revert same; decide)

theorem targetInjective {e : Engine τ} {c d : Content τ} (left : PlainColumns e c) (right : PlainColumns e d)
    (same : c.targetId.getD [] = d.targetId.getD []) : c.targetId = d.targetId := by
  cases own : c.targetId with
  | none => cases other : d.targetId with
    | none => rfl
    | some t =>
      rw [own,other] at same
      exact absurd same.symm (right.target t other).2
  | some t => cases other : d.targetId with
    | none =>
      rw [own,other] at same
      exact absurd same (left.target t own).2
    | some u =>
      rw [own,other] at same
      exact congrArg some same

theorem canonicalInjective {e : Engine τ} (stamps : Function.Injective e.atText) {c d : Content τ}
    (left : PlainColumns e c) (right : PlainColumns e d) {id : Nat}
    (same : canonicalBytes e id c = canonicalBytes e id d) : c = d := by
  rw [canonicalBytes,canonicalBytes,slashlessBytes (canonicalSlashless left id),
    slashlessBytes (canonicalSlashless right id)] at same
  have texts := Utf8.bytesInjective (Option.some.inj same)
  obtain ⟨_,texts⟩ := splitFirst idPlain.1 idPlain.1 texts
  obtain ⟨actor,texts⟩ := splitFirst left.actor.1 right.actor.1 texts
  obtain ⟨actorId,texts⟩ := splitFirst (actorIdPlain _).1 (actorIdPlain _).1 texts
  obtain ⟨action,texts⟩ := splitFirst (actionPlain _).1 (actionPlain _).1 texts
  obtain ⟨target,texts⟩ := splitFirst (targetPlain left).1 (targetPlain right).1 texts
  obtain ⟨details,stamp⟩ := splitLast left.stamp.1 right.stamp.1 texts
  have target := targetInjective left right target
  have actorId := actorIdInjective actorId
  have action := actionInjective action
  have details := renderInjective jsonbFaithful details
  have stamp := stamps stamp
  cases c
  cases d
  simp_all

theorem editDetected (e : Engine τ) (injective : Function.Injective e.digest) {rows : List (AuditRow τ)}
    (distinct : Distinct AuditRow.id rows) (verified : verifyAuditChain e rows = some 0) (edit : AuditRow τ → Content τ) :
    (Detected e (tamper edit rows) ↔ (∀ r ∈ rows, (canonicalBytes e r.id (edit r)).isSome) ∧
      ∃ r ∈ rows, canonicalBytes e r.id (edit r) ≠ canonicalBytes e r.id r.content) ∧
    (Function.Injective e.atText → (∀ r ∈ rows, PlainColumns e r.content ∧ PlainColumns e (edit r)) →
      (∃ r ∈ rows, edit r ≠ r.content) → Detected e (tamper edit rows)) := by
  have intact := (verifyZero distinct).mp verified
  have distinct' : Distinct AuditRow.id (tamper edit rows) := by
    rw [Distinct,tamper,List.map_map]
    exact distinct
  have defined : (∀ r ∈ tamper edit rows, (expectedRowHash e r).isSome) ↔
      ∀ r ∈ rows, (canonicalBytes e r.id (edit r)).isSome := by
    simp [tamper,expectedRowHash]
  have exact_ : Detected e (tamper edit rows) ↔ (∀ r ∈ rows, (canonicalBytes e r.id (edit r)).isSome) ∧
      ∃ r ∈ rows, canonicalBytes e r.id (edit r) ≠ canonicalBytes e r.id r.content := by
    rw [detectedIff distinct',defined,editIntact injective intact edit]
    push Not
    rfl
  refine ⟨exact_,fun stamps columns changes => ?_⟩
  obtain ⟨r,mem,changed⟩ := changes
  refine exact_.mpr ⟨fun x inside => ?_,r,mem,fun same => ?_⟩
  · rw [canonicalBytes,slashlessBytes (canonicalSlashless (columns x inside).2 x.id)]
    rfl
  · exact changed (canonicalInjective stamps (columns r mem).2 (columns r mem).1 same)

theorem idBytes (e : Engine τ) {id : Nat} {c : Content τ} {bytes : Bytes} (cast : canonicalBytes e id c = some bytes) :
    ∃ rest, bytes = (Nat.toDigits 10 id).flatMap String.utf8EncodeChar ++ 124::rest := by
  rw [canonicalBytes,adminAuditCanonical,byteaPlain idPlain.2] at cast
  obtain ⟨tail,joined,rfl⟩ := Option.map_eq_some_iff.mp cast
  have bar := byteaPlain (t := ['|']) (by decide)
  rw [← List.singleton_append,bar] at joined
  obtain ⟨rest,_,rfl⟩ := Option.map_eq_some_iff.mp joined
  exact ⟨rest,rfl⟩

theorem barNotInId (id : Nat) : 124 ∉ (Nat.toDigits 10 id).flatMap String.utf8EncodeChar := by
  intro mem
  obtain ⟨c,digit,inside⟩ := List.mem_flatMap.mp mem
  have decimal := Nat.isDigit_of_mem_toDigits (b := 10) (by decide) (by decide) digit
  have range : 48 ≤ c.val ∧ c.val ≤ 57 := by simpa [Char.isDigit] using decimal
  have low : c.val ≤ 127 := UInt32.le_trans range.2 (by decide)
  have byte : String.utf8EncodeChar c = [c.val.toUInt8] := String.utf8EncodeChar_eq_singleton (Char.utf8Size_eq_one_iff.mpr low)
  rw [byte,List.mem_singleton] at inside
  have number : 124 = c.val.toNat % 256 := congrArg UInt8.toNat inside
  have most : c.val.toNat ≤ 57 := range.2
  omega

theorem idInjective {e : Engine τ} {id id' : Nat} {c d : Content τ} {bytes : Bytes}
    (left : canonicalBytes e id c = some bytes) (right : canonicalBytes e id' d = some bytes) : id = id' := by
  obtain ⟨rest,parts⟩ := idBytes e left
  obtain ⟨rest',parts'⟩ := idBytes e right
  obtain ⟨digits,_⟩ := splitFirst (barNotInId id) (barNotInId id') (parts.symm.trans parts')
  have same := congrArg (Nat.ofDigitChars 10 · 0) (Utf8.bytesInjective digits)
  simpa [Nat.ofDigitChars_ten_toDigits] using same

theorem prefixInput {e : Engine τ} {r p : AuditRow τ} (castable : (hashInput e r).isSome)
    (free : r.prevHash.getD genesis <+: p.prevHash.getD genesis ∨ p.prevHash.getD genesis <+: r.prevHash.getD genesis →
      r.prevHash.getD genesis = p.prevHash.getD genesis) (same : hashInput e r = hashInput e p) : r.id = p.id := by
  obtain ⟨input,own⟩ := Option.isSome_iff_exists.mp castable
  obtain ⟨left,castLeft,joinedLeft⟩ := Option.map_eq_some_iff.mp own
  obtain ⟨right,castRight,joinedRight⟩ := Option.map_eq_some_iff.mp (same.symm.trans own)
  have prev := free (List.prefix_or_prefix_of_prefix ⟨left,joinedLeft⟩ ⟨right,joinedRight⟩)
  rw [← joinedLeft,prev] at joinedRight
  rw [← List.append_cancel_left joinedRight] at castLeft
  exact idInjective castLeft castRight

theorem deletionIntact {e : Engine τ} (injective : Function.Injective e.digest) {rows : List (AuditRow τ)}
    (intact : Intact e rows) (keep : AuditRow τ → Bool) : Intact e (rows.filter keep) ↔
      ∀ front r gap p s back, orderBy AuditRow.id rows = front ++ r::(gap ++ p::s::back) → keep r = true →
        keep s = true → (∀ x ∈ gap ++ [p], keep x = false) → hashInput e r = hashInput e p := by
  have meet : ∀ front r gap p s back, orderBy AuditRow.id rows = front ++ r::(gap ++ p::s::back) →
      (Follows r s ↔ hashInput e r = hashInput e p) := by
    intro front r gap p s back split
    have inside : ∀ x ∈ front ++ r::(gap ++ p::s::back), x ∈ rows := by
      rw [← split]
      exact fun x mem => (memOrder _).mp mem
    have before : s.prevHash = p.rowHash := by
      have linked := intact.linked
      rw [split,show front ++ r::(gap ++ p::s::back) = (front ++ r::gap) ++ p::s::back by simp,
        List.isChain_append_cons_cons] at linked
      exact linked.2.1
    rw [Follows,before,eq_comm]
    exact sameHash injective (intact.rowsSealed r (inside r (by simp))) (intact.rowsSealed p (inside p (by simp)))
  have chain := filterChain intact.linked keep
  rw [← orderFilter intact.distinct] at chain
  constructor
  · intro after front r gap p s back split left right lost
    exact (meet front r gap p s back split).mp (chain.mp after.linked front r gap p s back split left right lost)
  · intro same
    refine ⟨intact.distinct.sublist (List.filter_sublist.map _),fun r mem => ?_,chain.mpr ?_⟩
    · exact intact.rowsSealed r (List.mem_of_mem_filter mem)
    · intro front r gap p s back split left right lost
      exact (meet front r gap p s back split).mpr (same front r gap p s back split left right lost)

theorem gapOrder {rows front gap back : List (AuditRow τ)} {r p s : AuditRow τ} (distinct : Distinct AuditRow.id rows)
    (split : orderBy AuditRow.id rows = front ++ r::(gap ++ p::s::back)) :
    (r ∈ rows ∧ p ∈ rows ∧ s ∈ rows) ∧ r.id < p.id ∧ p.id < s.id := by
  have strict := orderStrict distinct
  have inside : ∀ x ∈ front ++ r::(gap ++ p::s::back), x ∈ rows := by
    rw [← split]
    exact fun x mem => (memOrder _).mp mem
  rw [split,List.pairwise_append,List.pairwise_cons,List.pairwise_append,List.pairwise_cons] at strict
  obtain ⟨_,⟨first,_,⟨second,_⟩,_⟩,_⟩ := strict
  exact ⟨⟨inside r (by simp),inside p (by simp),inside s (by simp)⟩,first p (by simp),second s (by simp)⟩

theorem gapBetween {rows : List (AuditRow τ)} (distinct : Distinct AuditRow.id rows) {keep : AuditRow τ → Bool}
    {a d b : AuditRow τ} (left : a ∈ rows) (middle : d ∈ rows) (right : b ∈ rows) (below : a.id < d.id)
    (above : d.id < b.id) (keptLeft : keep a = true) (keptRight : keep b = true) (lost : keep d = false) :
    ∃ front r gap p s back, orderBy AuditRow.id rows = front ++ r::(gap ++ p::s::back) ∧ keep r = true ∧
      keep s = true ∧ ∀ x ∈ gap ++ [p], keep x = false := by
  obtain ⟨xs,ys,split⟩ := List.append_of_mem ((memOrder AuditRow.id).mpr middle)
  have strict := orderStrict distinct
  rw [split,List.pairwise_append,List.pairwise_cons] at strict
  obtain ⟨_,⟨later,_⟩,earlier⟩ := strict
  have place : ∀ x ∈ rows, x ∈ xs ∨ x = d ∨ x ∈ ys := by
    intro x mem
    have ordered := (memOrder AuditRow.id).mpr mem
    rw [split,List.mem_append,List.mem_cons] at ordered
    exact ordered
  have first : a ∈ xs := by
    rcases place a left with inside | rfl | inside
    · exact inside
    · exact absurd below (Nat.lt_irrefl _)
    · exact absurd (later a inside) (Nat.lt_asymm below)
  have last : b ∈ ys := by
    rcases place b right with inside | rfl | inside
    · exact absurd (earlier b inside d List.mem_cons_self) (Nat.lt_asymm above)
    · exact absurd above (Nat.lt_irrefl _)
    · exact inside
  rw [split]
  exact gapAround first keptLeft lost last keptRight

theorem deletionDetected (e : Engine τ) (injective : Function.Injective e.digest) {rows : List (AuditRow τ)}
    (distinct : Distinct AuditRow.id rows) (verified : verifyAuditChain e rows = some 0) (keep : AuditRow τ → Bool) :
    (Detected e (rows.filter keep) ↔ ∃ front r gap p s back,
      orderBy AuditRow.id rows = front ++ r::(gap ++ p::s::back) ∧ keep r = true ∧ keep s = true ∧
      (∀ x ∈ gap ++ [p], keep x = false) ∧ hashInput e r ≠ hashInput e p) ∧
    ((∀ a ∈ rows, ∀ b ∈ rows, a.prevHash.getD genesis <+: b.prevHash.getD genesis →
        a.prevHash.getD genesis = b.prevHash.getD genesis) →
      (Detected e (rows.filter keep) ↔ ∃ a ∈ rows, ∃ d ∈ rows, ∃ b ∈ rows, a.id < d.id ∧ d.id < b.id ∧
        keep a = true ∧ keep d = false ∧ keep b = true)) := by
  have intact := (verifyZero distinct).mp verified
  have exact_ : Detected e (rows.filter keep) ↔ ∃ front r gap p s back,
      orderBy AuditRow.id rows = front ++ r::(gap ++ p::s::back) ∧ keep r = true ∧ keep s = true ∧
      (∀ x ∈ gap ++ [p], keep x = false) ∧ hashInput e r ≠ hashInput e p := by
    have defined : ∀ r ∈ rows.filter keep, (expectedRowHash e r).isSome := fun r mem =>
      sealedDefined (intact.rowsSealed r (List.mem_of_mem_filter mem))
    rw [detectedIff (distinct.sublist (List.filter_sublist.map _)),deletionIntact injective intact keep,
      and_iff_right defined]
    push Not
    rfl
  refine ⟨exact_,fun free => exact_.trans ⟨?_,?_⟩⟩
  · rintro ⟨front,r,gap,p,s,back,split,left,right,lost,_⟩
    obtain ⟨⟨first,middle,last⟩,below,above⟩ := gapOrder distinct split
    exact ⟨r,first,p,middle,s,last,below,above,left,lost p (by simp),right⟩
  · rintro ⟨a,left,d,middle,b,right,below,above,keptLeft,lost,keptRight⟩
    obtain ⟨front,r,gap,p,s,back,split,first,last,gone⟩ :=
      gapBetween distinct left middle right below above keptLeft keptRight lost
    obtain ⟨⟨insideR,insideP,_⟩,order,_⟩ := gapOrder distinct split
    refine ⟨front,r,gap,p,s,back,split,first,last,gone,fun same => ?_⟩
    have castable := (sealedInput.mp (intact.rowsSealed r insideR)).1
    have ids := prefixInput castable (fun either => either.elim (free r insideR p insideP)
      (fun shorter => (free p insideP r insideR shorter).symm)) same
    omega

def inserted (e : Engine τ) (entries : List (Nat × Content τ)) : List (AuditRow τ) :=
  entries.foldl (fun rows entry => rows ++ (adminAuditChainHash e rows entry.1 entry.2).toList) []

def transparent : Engine Calendar.Stamp := ⟨List.cons 1,Calendar.Stamp.postgres⟩

def purge : Content Calendar.Stamp :=
  ⟨"ops".toList,none,.dlqPurge,some "n1||dlq_replay|n2".toList,.obj [],⟨0,Calendar.startRange⟩,opsLength⟩

def replay : Content Calendar.Stamp :=
  ⟨"ops||dlq_purge|n1".toList,none,.dlqReplay,some "n2".toList,.obj [],⟨0,Calendar.startRange⟩,by decide⟩

def toReplay (r : AuditRow Calendar.Stamp) : Content Calendar.Stamp := if r.id = 1 then replay else r.content

theorem purgesVerified : verifyAuditChain transparent (inserted transparent [(1,purge),(2,purge)]) = some 0 := by
  decide +kernel

theorem purgesIds : (inserted transparent [(1,purge),(2,purge)]).map AuditRow.id = [1,2] := by decide +kernel

theorem purgesDistinct : Distinct AuditRow.id (inserted transparent [(1,purge),(2,purge)]) := by
  rw [Distinct,purgesIds]
  decide

theorem editOfDetailsSeen : verifyAuditChain transparent (inserted transparent [(1,purge),(2,purge)]) = some 0 ∧
    Detected transparent (tamper (fun r => if r.id = 2 then {r.content with details := .null} else r.content)
      (inserted transparent [(1,purge),(2,purge)])) := by
  have exact_ := (editDetected transparent List.cons_injective purgesDistinct purgesVerified
    (fun r => if r.id = 2 then {r.content with details := .null} else r.content)).1
  exact ⟨purgesVerified,exact_.mpr ⟨by decide +kernel,by decide +kernel⟩⟩

theorem shiftedColumnsGoUnseen : ¬ ∀ e : Engine Calendar.Stamp, Function.Injective e.digest →
    Function.Injective e.atText → ∀ rows, Distinct AuditRow.id rows → verifyAuditChain e rows = some 0 →
      ∀ edit : AuditRow Calendar.Stamp → Content Calendar.Stamp, (∃ r ∈ rows, edit r ≠ r.content) →
        Detected e (tamper edit rows) := by
  intro detects
  have changed : ∃ r ∈ inserted transparent [(1,purge),(2,purge)], toReplay r ≠ r.content := by
    have actors : ∃ r ∈ inserted transparent [(1,purge),(2,purge)], (toReplay r).actor ≠ r.content.actor := by
      decide +kernel
    obtain ⟨r,mem,differ⟩ := actors
    exact ⟨r,mem,fun same => differ (congrArg Content.actor same)⟩
  obtain ⟨n,positive,count⟩ := detects transparent List.cons_injective
    (fun _ _ => Calendar.postgresInjective) _ purgesDistinct purgesVerified toReplay changed
  have unseen : verifyAuditChain transparent (tamper toReplay (inserted transparent [(1,purge),(2,purge)])) = some 0 := by
    decide +kernel
  rw [unseen] at count
  cases count
  exact absurd positive (Nat.lt_irrefl 0)

theorem middleDeletionSeen :
    verifyAuditChain transparent (inserted transparent [(1,purge),(2,replay),(4,purge)]) = some 0 ∧
    Detected transparent ((inserted transparent [(1,purge),(2,replay),(4,purge)]).filter (fun r => r.id != 2)) := by
  have verified : verifyAuditChain transparent (inserted transparent [(1,purge),(2,replay),(4,purge)]) = some 0 := by
    decide +kernel
  have distinct : Distinct AuditRow.id (inserted transparent [(1,purge),(2,replay),(4,purge)]) := by
    unfold Distinct
    decide +kernel
  have between := (deletionDetected transparent List.cons_injective distinct verified (fun r => r.id != 2)).2
    (by decide +kernel)
  exact ⟨verified,between.mpr (by decide +kernel)⟩

theorem lastDeletionGoesUnseen : ¬ ∀ e : Engine Calendar.Stamp, Function.Injective e.digest →
    ∀ rows, Distinct AuditRow.id rows → verifyAuditChain e rows = some 0 → ∀ keep : AuditRow Calendar.Stamp → Bool,
      (∃ r ∈ rows, keep r = true) → (∃ r ∈ rows, keep r = false) → Detected e (rows.filter keep) := by
  intro detects
  obtain ⟨n,positive,count⟩ := detects transparent List.cons_injective _ purgesDistinct purgesVerified (fun r => r.id == 1)
    (by decide +kernel) (by decide +kernel)
  have unseen : verifyAuditChain transparent
      ((inserted transparent [(1,purge),(2,purge)]).filter (fun r => r.id == 1)) = some 0 := by decide +kernel
  rw [unseen] at count
  cases count
  exact absurd positive (Nat.lt_irrefl 0)

end Notifyd.AuditTamper
