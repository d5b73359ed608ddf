import Notifyd.Create

/-! Request validation of `internal/api/validate.go` and `validateCreate` of
`internal/api/notifications.go`, on the decoded request. Go's `len` of a string counts bytes.
`parseAddress` stands for `net/mail.ParseAddress` and says which addresses it takes. -/
namespace Notifyd.Validate
open Domain Create

structure FieldError where
  field : String
  message : String
  deriving DecidableEq, Repr

structure CreateRequest where
  channel : String
  recipient : String
  content : String
  templateId : Option Nat
  priority : String
  scheduledAt : Option Nat
  deriving DecidableEq, Repr

def channelOf (text : String) : Option Channel :=
  if text = "sms" then some .sms else if text = "email" then some .email
  else if text = "push" then some .push else none

def priorityOf (text : String) : Option Priority :=
  if text = "high" then some .high else if text = "low" then some .low
  else if text = "normal" ∨ text = "" then some .normal else none

def digit (c : Char) : Bool := '0' ≤ c && c ≤ '9'

/- The pattern ^\+[1-9]\d{1,14}$. -/
def e164 (text : String) : Bool :=
  match text.toList with
  | '+'::lead::rest => digit lead && lead != '0' && rest.all digit && (1 ≤ rest.length && rest.length ≤ 14)
  | _ => false

def smsMaxChars : Nat := 1000

def emailMaxBytes : Nat := 256*1024

def pushMaxBytes : Nat := 4*1024

section
variable (parseAddress : String → Bool)

def validateRecipient (channel : Channel) (recipient : String) : List FieldError :=
  if recipient = "" then [⟨"recipient","must not be empty"⟩]
  else match channel with
  | .sms => if e164 recipient then [] else [⟨"recipient","must be E.164 (e.g. +905551234567)"⟩]
  | .email => if parseAddress recipient then [] else [⟨"recipient","must be a valid email address"⟩]
  | .push =>
      if recipient.utf8ByteSize < 16 ∨ 512 < recipient.utf8ByteSize then
        [⟨"recipient","device token length must be 16..512"⟩]
      else []

def validateContent (channel : Channel) (content : String) : List FieldError :=
  if content = "" then [⟨"content","must not be empty"⟩]
  else match channel with
  | .sms => if smsMaxChars < content.utf8ByteSize then [⟨"content",s!"max {smsMaxChars} chars for SMS"⟩] else []
  | .email => if emailMaxBytes < content.utf8ByteSize then [⟨"content",s!"max {emailMaxBytes} bytes for email"⟩] else []
  | .push => if pushMaxBytes < content.utf8ByteSize then [⟨"content",s!"max {pushMaxBytes} bytes for push"⟩] else []

/- Exactly one of `content` and `template_id`; rendered content is checked by the caller. -/
def validateShape (channel : Channel) (content : String) (templateId : Option Nat) : List FieldError :=
  if content ≠ "" ∧ templateId.isSome then
    [⟨"content","must not be set when template_id is provided"⟩]
  else if content = "" ∧ templateId.isNone then
    [⟨"content","must be set when template_id is not provided"⟩]
  else if content ≠ "" then validateContent channel content
  else []

def maxSchedule : Nat := 30*24*60*60*1000

def validateCreate (now : Nat) (req : CreateRequest) : List FieldError :=
  match channelOf req.channel with
  | none => [⟨"channel","must be sms | email | push"⟩]
  | some channel =>
      validateRecipient parseAddress channel req.recipient ++
      validateShape channel req.content req.templateId ++
      (if (priorityOf req.priority).isNone then [⟨"priority","must be high | normal | low"⟩] else []) ++
      (if req.scheduledAt.any (fun t => now + maxSchedule < t) then
        [⟨"scheduled_at","must be ≤ 30 days in the future"⟩] else [])

end

def CreateRequest.typed (req : CreateRequest) : Option Request := do
  let channel ← channelOf req.channel
  let priority ← priorityOf req.priority
  some ⟨channel,req.recipient,req.content,req.templateId,priority,req.scheduledAt⟩

theorem typedFields {req : CreateRequest} {t : Request} (typed : req.typed = some t) :
    channelOf req.channel = some t.channel ∧ t.recipient = req.recipient ∧ t.content = req.content ∧
    t.templateId = req.templateId ∧ t.scheduledAt = req.scheduledAt := by
  simp only [CreateRequest.typed,bind,Option.bind_eq_some_iff] at typed
  obtain ⟨channel,known,priority,_,last⟩ := typed
  cases Option.some.inj last
  exact ⟨known,rfl,rfl,rfl,rfl⟩

theorem validTyped {parseAddress now req} (valid : validateCreate parseAddress now req = []) :
    ∃ typed, req.typed = some typed := by
  unfold validateCreate at valid
  split at valid <;> try contradiction
  rename_i channel known
  simp only [List.append_eq_nil_iff,ite_eq_right_iff,reduceCtorEq,imp_false,Bool.not_eq_true,
    Option.isNone_eq_false_iff] at valid
  obtain ⟨priority,label⟩ := Option.isSome_iff_exists.mp valid.1.2
  exact ⟨_,by simp only [CreateRequest.typed,known,label]; rfl⟩

end Notifyd.Validate
