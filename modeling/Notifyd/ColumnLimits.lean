import Notifyd.Acceptance
import Notifyd.Templates
import Notifyd.Utf8

/-! The limits the handlers check, in bytes and by channel, against the CHECK constraints of the tables, in
characters. A row of an accepted request can break three of them: the length of the recipient, the content of a
templated item in a batch, and the length of the new body of a template. -/
namespace Notifyd.ColumnLimits
open Domain Create Validate Acceptance Templates
open Batch (defaultPriority)
open Utf8 (lengthBytes lengthPositive)

theorem contentFits {channel content} (ok : validateContent channel content = []) :
    1 ≤ content.length ∧ content.length ≤ 262144 := by
  have given : content ≠ "" := by
    rintro rfl
    contradiction
  have bytes := (contentIff given channel).mp ok
  have cap : contentCap channel ≤ 262144 := by cases channel <;> decide
  exact ⟨lengthPositive.mpr given,Nat.le_trans (lengthBytes content) (Nat.le_trans bytes cap)⟩

theorem validParts {parseAddress now req} (valid : validateCreate parseAddress now req = []) :
    1 ≤ req.recipient.length ∧ ∀ channel, channelOf req.channel = some channel →
      (req.templateId = none → validateContent channel req.content = []) ∧ (req.templateId ≠ none → req.content = "") := by
  unfold validateCreate at valid
  split at valid <;> try contradiction
  rename_i channel named
  simp only [List.append_eq_nil_iff] at valid
  obtain ⟨⟨⟨recipient,shape⟩,_⟩,_⟩ := valid
  refine ⟨lengthPositive.mpr ?_,fun other known => ?_⟩
  · intro empty
    unfold validateRecipient at recipient
    rw [if_pos empty] at recipient
    contradiction
  · cases Option.some.inj (named.symm.trans known)
    rcases (shapeIff channel req).mp shape with ⟨given,plain,bytes⟩ | ⟨empty,templated⟩
    · exact ⟨fun _ => (contentIff given channel).mpr bytes,fun templated => absurd plain templated⟩
    · exact ⟨fun plain => absurd plain templated,fun _ => empty⟩

theorem priorityAllowed (p : Priority) : p.int16 = 1 ∨ p.int16 = 5 ∨ p.int16 = 9 := by cases p <;> decide

theorem persistChecks {caller key version later} {typed : Request} (recipient : 1 ≤ typed.recipient.length)
    (content : 1 ≤ typed.content.length ∧ typed.content.length ≤ 262144)
    (pair : typed.templateId.isNone = true ↔ version.isNone = true) (positive : ∀ v, version = some v → 1 ≤ v) :
    Store.Checks ((persistParams later caller key version typed).row later) ↔ typed.recipient.length ≤ 320 := by
  constructor
  · intro checks
    exact checks.1.2
  · intro short
    refine ⟨⟨recipient,short⟩,content,priorityAllowed _,?_,?_,pair⟩
    · simp only [persistParams,Store.InsertParams.row]
      split <;> simp
    · cases version with
      | none => rfl
      | some v => exact decide_eq_true (positive v rfl)

theorem batchItemChecks {batchId caller later} {typed : Request} (recipient : 1 ≤ typed.recipient.length)
    (content : typed.content.length ≤ 262144) :
    Store.Checks ((batchItemParams batchId caller typed).row later) ↔
      typed.recipient.length ≤ 320 ∧ 1 ≤ typed.content.length := by
  constructor
  · intro checks
    exact ⟨checks.1.2,checks.2.1.1⟩
  · rintro ⟨short,given⟩
    exact ⟨⟨recipient,short⟩,⟨given,content⟩,priorityAllowed _,by simp [batchItemParams,Store.InsertParams.row],rfl,Iff.rfl⟩

theorem itemChecks {parseAddress now it typed later batchId caller} (valid : validateCreate parseAddress now it = [])
    (decoded : it.typed = some typed) : Store.Checks ((batchItemParams batchId caller typed).row later) ↔
      it.recipient.length ≤ 320 ∧ it.templateId = none := by
  obtain ⟨known,recipient,content,template,_⟩ := typedFields decoded
  obtain ⟨addressed,parts⟩ := validParts valid
  obtain ⟨raw,templated⟩ := parts _ known
  by_cases plain : it.templateId = none
  · have fits := contentFits (raw plain)
    rw [batchItemChecks (recipient ▸ addressed) (content ▸ fits.2),recipient,content]
    exact ⟨fun both => ⟨both.1,plain⟩,fun both => ⟨both.1,fits.1⟩⟩
  · have empty := templated plain
    rw [batchItemChecks (recipient ▸ addressed) (by rw [content,empty]; decide),recipient,content,empty]
    exact ⟨fun both => absurd both.2 (by decide),fun both => absurd both.2 plain⟩

section
variable {ν : Type}

theorem resolvedChecks {setup : Setup ν} {now who table sub req version typed later caller key}
    (resolved : Resolved setup now who table sub req version) (decoded : req.typed = some typed) :
    Store.Checks ((persistParams later caller key version typed).row later) ↔ req.recipient.length ≤ 320 := by
  obtain ⟨known,recipient,content,template,_⟩ := typedFields decoded
  rw [← recipient]
  cases resolved with
  | raw valid _ plain =>
    obtain ⟨addressed,parts⟩ := validParts valid
    have fits := contentFits ((parts _ known).1 plain)
    exact persistChecks (recipient ▸ addressed) (content ▸ fits) (by rw [template,plain]) (fun v same => by cases same)
  | @templated id row text valid _ named _ rendered =>
    obtain ⟨addressed,_⟩ := validParts valid
    have checked := rendered.fits
    rw [contentErrors,show channelOf (defaultPriority sub.request).channel = some typed.channel from known] at checked
    refine persistChecks (recipient ▸ addressed) (content ▸ contentFits checked) ?_ ?_
    · rw [template,show ({defaultPriority sub.request with content := text} : CreateRequest).templateId = some id from named]
      simp
    · rintro v ⟨⟩
      exact row.property.2.1

theorem limitsExact (setup : Setup ν) :
    (∀ now who table sub req version typed, resolve setup now who table sub = .ok (req,version) → req.typed = some typed →
      ∀ later caller key, Store.Checks ((persistParams later caller key version typed).row later) ↔
        req.recipient.length ≤ 320) ∧
    (∀ now it typed, validateCreate setup.parseAddress now it = [] → it.typed = some typed → ∀ later batchId caller,
      Store.Checks ((batchItemParams batchId caller typed).row later) ↔ it.recipient.length ≤ 320 ∧ it.templateId = none) ∧
    (∀ now who channel vars req, validateTemplateCreate req = [] → Constraints (fresh now who channel vars req)) ∧
    ∀ now (row : Stored) body vars, body ≠ "" → (Constraints (row.val.bump now body vars) ↔ body.length ≤ 32768) := by
  refine ⟨?_,?_,?_,?_⟩
  · intro now who table sub req version typed ok decoded later caller key
    exact resolvedChecks (resolvedIff.mp ok) decoded
  · intro now it typed valid decoded later batchId caller
    exact itemChecks valid decoded
  · intro now who channel vars req valid
    simp only [validateTemplateCreate,List.append_eq_nil_iff,ite_eq_right_iff,reduceCtorEq,imp_false,not_or,not_lt] at valid
    obtain ⟨⟨⟨named,short⟩,_⟩,bodied,small⟩ := valid
    exact ⟨⟨lengthPositive.mpr named,Nat.le_trans (lengthBytes _) short⟩,Nat.le_refl _,
      lengthPositive.mpr bodied,Nat.le_trans (lengthBytes _) small⟩
  · intro now row body vars given
    constructor
    · intro holds
      exact holds.2.2.2
    · intro small
      exact ⟨row.property.1,Nat.le_add_left ..,lengthPositive.mpr given,small⟩

end

def plainSetup : Setup Unit := ⟨fun _ => false,true,⟨fun _ => none,fun body _ => .ok body⟩⟩

def writer : Who := ⟨⟨"018f0000-0000-7000-8000-000000000003",by decide⟩,false⟩

def noVars : Vars Unit := ⟨[],List.nodup_nil,trivial⟩

def pushTo (n : Nat) : Submitted Unit := ⟨⟨"push",String.ofList (List.replicate n 'a'),"hi",none,"normal",none⟩,noVars⟩

def pushTyped (n : Nat) : Request := ⟨.push,String.ofList (List.replicate n 'a'),"hi",none,.normal,none⟩

theorem tokenLength (n : Nat) : (pushTo n).request.recipient.length = n := by
  rw [pushTo,String.length_ofList,List.length_replicate]

theorem pushResolves {n : Nat} (range : validateCreate plainSetup.parseAddress 0 (pushTo n).request = []) :
    resolve plainSetup 0 writer [] (pushTo n) = .ok ((pushTo n).request,none) :=
  resolvedIff.mpr (.raw range (fun given => by cases given) rfl)

theorem shortTokenStored :
    Store.Checks ((persistParams 0 ⟨some writer.owner,"c"⟩ "" none (pushTyped 64)).row 0) := by
  have valid : validateCreate plainSetup.parseAddress 0 (pushTo 64).request = [] := by decide +kernel
  exact ((limitsExact plainSetup).1 _ _ _ _ _ _ _ (pushResolves valid) (rfl : (pushTo 64).request.typed = some (pushTyped 64))
    0 ⟨some writer.owner,"c"⟩ "").mpr (by rw [tokenLength]; decide)

theorem longTokenRefused : ¬ ∀ (setup : Setup Unit) now who table sub req version typed,
    resolve setup now who table sub = .ok (req,version) → req.typed = some typed →
    ∀ later caller key, Store.Checks ((persistParams later caller key version typed).row later) := by
  intro fits
  have valid : validateCreate plainSetup.parseAddress 0 (pushTo 321).request = [] := by decide +kernel
  have checks := fits plainSetup _ _ _ _ _ _ _ (pushResolves valid) (rfl : (pushTo 321).request.typed = some (pushTyped 321))
    0 ⟨some writer.owner,"c"⟩ ""
  have short : (pushTo 321).request.recipient.length ≤ 320 := checks.1.2
  rw [tokenLength] at short
  exact absurd short (by decide)

end Notifyd.ColumnLimits
