import Notifyd.Validate

/-! The requests that the documentation of the create endpoint admits, and those that `validateCreate`
accepts. They differ in the schedule: the check looks at the upper end of the interval only, and `persist`
drops a schedule that lies in the past. -/
namespace Notifyd.Acceptance
open Domain Create Validate

section
variable (parseAddress : String → Bool)

def PhoneNumber (text : String) : Prop :=
  ∃ lead rest, text.toList = '+'::lead::rest ∧ digit lead = true ∧ lead ≠ '0' ∧ (∀ c ∈ rest, digit c = true) ∧
    1 ≤ rest.length ∧ rest.length ≤ 14

def RecipientOk (recipient : String) : Channel → Prop
  | .sms => PhoneNumber recipient
  | .email => parseAddress recipient = true
  | .push => 16 ≤ recipient.utf8ByteSize ∧ recipient.utf8ByteSize ≤ 512

def channelName : Channel → String
  | .sms => "sms"
  | .email => "email"
  | .push => "push"

def contentCap : Channel → Nat
  | .sms => smsMaxChars
  | .email => emailMaxBytes
  | .push => pushMaxBytes

def ShapeOk (req : CreateRequest) (channel : Channel) : Prop :=
  req.content ≠ "" ∧ req.templateId = none ∧ req.content.utf8ByteSize ≤ contentCap channel ∨
    req.content = "" ∧ req.templateId ≠ none

structure Admissible (now : Nat) (req : CreateRequest) : Prop where
  body : ∃ channel, req.channel = channelName channel ∧ RecipientOk parseAddress req.recipient channel ∧
    ShapeOk req channel
  priority : req.priority ∈ ["high","normal","low",""]
  horizon : ∀ t, req.scheduledAt = some t → t ≤ now + maxSchedule

structure Documented (now : Nat) (req : CreateRequest) : Prop where
  admissible : Admissible parseAddress now req
  future : ∀ t, req.scheduledAt = some t → now < t

variable {parseAddress}

theorem e164Iff (text : String) : e164 text = true ↔ PhoneNumber text := by
  unfold e164 PhoneNumber
  split
  · rename_i lead rest chars
    simp only [chars,List.cons.injEq,true_and,Bool.and_eq_true,bne_iff_ne,List.all_eq_true,decide_eq_true_eq,and_assoc]
    constructor
    · rintro ⟨number,zero,digits,low,high⟩
      exact ⟨lead,rest,rfl,rfl,number,zero,digits,low,high⟩
    · rintro ⟨_,_,rfl,rfl,number,zero,digits,low,high⟩
      exact ⟨number,zero,digits,low,high⟩
  · rename_i other
    refine iff_of_false nofun ?_
    rintro ⟨lead,rest,chars,_⟩
    exact other lead rest chars

theorem channelOfIff {text : String} {channel : Channel} : channelOf text = some channel ↔ text = channelName channel := by
  unfold channelOf
  constructor
  · intro found
    split at found
    · cases found
      assumption
    split at found
    · cases found
      assumption
    split at found
    · cases found
      assumption
    · cases found
  · rintro rfl
    cases channel <;> rfl

theorem recipientIff (noEmpty : parseAddress "" = false) (channel : Channel) (recipient : String) :
    validateRecipient parseAddress channel recipient = [] ↔ RecipientOk parseAddress recipient channel := by
  unfold validateRecipient
  split
  · rename_i empty
    subst empty
    refine iff_of_false (List.cons_ne_nil _ _) ?_
    cases channel with
    | sms =>
      rintro ⟨_,_,chars,_⟩
      cases chars
    | email => exact ne_true_of_eq_false noEmpty
    | push => exact fun range => absurd range.1 (by decide)
  · cases channel with
    | sms =>
      rw [RecipientOk,← e164Iff]
      simp
    | email => simp [RecipientOk]
    | push =>
      simp only [RecipientOk]
      split
      · rename_i outside
        exact iff_of_false (List.cons_ne_nil _ _) (fun range => by omega)
      · rename_i inside
        exact iff_of_true rfl (by omega)

theorem contentIff {content : String} (given : content ≠ "") (channel : Channel) :
    validateContent channel content = [] ↔ content.utf8ByteSize ≤ contentCap channel := by
  unfold validateContent
  rw [if_neg given]
  cases channel <;> simp [contentCap]

theorem shapeIff (channel : Channel) (req : CreateRequest) :
    validateShape channel req.content req.templateId = [] ↔ ShapeOk req channel := by
  unfold validateShape ShapeOk
  by_cases given : req.content = ""
  · cases template : req.templateId with
    | none => simp [given]
    | some id => simp [given]
  · cases template : req.templateId with
    | none => simp [given,contentIff given]
    | some id => simp [given]

theorem priorityIff (text : String) : (priorityOf text).isNone = false ↔ text ∈ ["high","normal","low",""] := by
  unfold priorityOf
  simp only [List.mem_cons,List.not_mem_nil,or_false]
  split
  · simp_all
  split
  · simp_all
  split
  · rename_i normal
    rcases normal with rfl | rfl <;> simp
  · simp_all

theorem horizonIff (due : Option Nat) (bound : Nat) :
    due.any (fun t => decide (bound < t)) = false ↔ ∀ t, due = some t → t ≤ bound := by
  cases due <;> simp

theorem validIff (noEmpty : parseAddress "" = false) (now : Nat) (req : CreateRequest) :
    validateCreate parseAddress now req = [] ↔ Admissible parseAddress now req := by
  unfold validateCreate
  cases named : channelOf req.channel with
  | none =>
    refine iff_of_false (List.cons_ne_nil _ _) ?_
    rintro ⟨⟨channel,known,_⟩,_⟩
    rw [channelOfIff.mpr known] at named
    cases named
  | some channel =>
    simp only [List.append_eq_nil_iff,ite_eq_right_iff,reduceCtorEq,imp_false,Bool.not_eq_true]
    rw [recipientIff noEmpty,shapeIff,priorityIff,horizonIff]
    constructor
    · rintro ⟨⟨⟨recipient,shape⟩,priority⟩,horizon⟩
      exact ⟨⟨channel,channelOfIff.mp named,recipient,shape⟩,priority,horizon⟩
    · rintro ⟨⟨other,known,recipient,shape⟩,priority,horizon⟩
      cases Option.some.inj (named.symm.trans (channelOfIff.mpr known))
      exact ⟨⟨⟨recipient,shape⟩,priority⟩,horizon⟩

end

theorem scheduleKept {later : Nat} {caller : Caller} {key : String} {version : Option Nat} {req : CreateRequest}
    {typed : Request}
    (decoded : req.typed = some typed) : (persistParams later caller key version typed).scheduledAt = req.scheduledAt ∧
      ((persistParams later caller key version typed).status = .pending ↔ req.scheduledAt = none) ↔
    ∀ t, req.scheduledAt = some t → later < t := by
  obtain ⟨_,_,_,_,schedule⟩ := typedFields decoded
  simp only [persistParams,scheduleOf,schedule]
  cases req.scheduledAt with
  | none => simp
  | some due => by_cases ahead : later < due <;> simp [ahead]

/-- The accepted requests are the documented ones if and only if an admissible schedule lies after the reading of the
clock at the check, and what is accepted is stored with its schedule if and only if it lies after the reading at the
insert too. -/
theorem validationExactIff {parseAddress : String → Bool} (noEmpty : parseAddress "" = false) (now later : Nat)
    (req : CreateRequest) (caller : Caller) (key : String) (version : Option Nat) :
    ((validateCreate parseAddress now req = [] ↔ Documented parseAddress now req) ↔
      (Admissible parseAddress now req → ∀ t, req.scheduledAt = some t → now < t)) ∧
    ((validateCreate parseAddress now req = [] → ∀ typed, req.typed = some typed →
        (persistParams later caller key version typed).scheduledAt = req.scheduledAt ∧
        ((persistParams later caller key version typed).status = .pending ↔ req.scheduledAt = none)) ↔
      (Admissible parseAddress now req → ∀ t, req.scheduledAt = some t → later < t)) := by
  constructor
  · rw [validIff noEmpty]
    exact ⟨fun same admissible => (same.mp admissible).future,
      fun future => ⟨fun admissible => ⟨admissible,future admissible⟩,Documented.admissible⟩⟩
  · constructor
    · intro kept admissible
      have valid := (validIff noEmpty now req).mpr admissible
      obtain ⟨typed,decoded⟩ := validTyped valid
      exact (scheduleKept decoded).mp (kept valid typed decoded)
    · intro future valid typed decoded
      exact (scheduleKept decoded).mpr (future ((validIff noEmpty now req).mp valid))

def noAddress (_ : String) : Bool := false

def textAt (due : Nat) : CreateRequest := ⟨"sms","+905551234567","hi",none,"normal",some due⟩

def nobody : Caller := ⟨none,""⟩

theorem soonDocumented : validateCreate noAddress 0 (textAt 60000) = [] ∧ Documented noAddress 0 (textAt 60000) := by
  have valid : validateCreate noAddress 0 (textAt 60000) = [] := by decide +kernel
  have future : ∀ t, (textAt 60000).scheduledAt = some t → 0 < t := by
    rintro t ⟨⟩
    decide
  exact ⟨valid,((validationExactIff rfl 0 1 (textAt 60000) nobody "" none).1.mpr (fun _ => future)).mp valid⟩

theorem pastAccepted : validateCreate noAddress 60000 (textAt 0) = [] ∧ ¬Documented noAddress 60000 (textAt 0) ∧
    ∃ typed, (textAt 0).typed = some typed ∧ (persistParams 60000 nobody "" none typed).status = .pending ∧
      (persistParams 60000 nobody "" none typed).scheduledAt = none := by
  have valid : validateCreate noAddress 60000 (textAt 0) = [] := by decide +kernel
  obtain ⟨typed,decoded⟩ := validTyped valid
  obtain ⟨_,_,_,_,schedule⟩ := typedFields decoded
  refine ⟨valid,fun documented => absurd (documented.future 0 rfl) (by decide),typed,decoded,?_⟩
  have dropped : scheduleOf 60000 typed = none := by
    rw [scheduleOf,schedule]
    rfl
  rw [persistParams,dropped]
  exact ⟨rfl,rfl⟩

end Notifyd.Acceptance
