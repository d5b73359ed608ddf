import Notifyd.BatchAccounting
import Notifyd.BatchRepeats
import Notifyd.ColumnLimits

/-! One item sent in a batch and sent alone. `insertBatchItem` reads neither the template nor the schedule of its
item: a templated item has no content to store and takes the whole batch with it, and a scheduled one goes out at
once. -/
namespace Notifyd.BatchItems
open Domain Store Create Validate Templates ColumnLimits
open Batch (defaultPriority defaultSame prepare Plan Call)
open BatchAccounting (planListed listedMember)

def anonymous (n : Notification) : Notification := {n with batchId := none, idempotencyKey := none}

structure Alike (db one other : Db) : Prop where
  rows : ∃ r s : Row, one.notifications = db.notifications ++ [r] ∧ other.notifications = db.notifications ++ [s] ∧
    anonymous r.val = anonymous s.val
  outbox : one.outbox = other.outbox
  scheduled : one.scheduled = other.scheduled

section
variable {ν : Type}

structure Setting (ν : Type) where
  setup : Setup ν
  now : Nat
  who : Who
  correlationId : String
  table : Table
  db : Db

variable (here : Setting ν)

def Setting.caller : Caller := ⟨some here.who.owner,here.correlationId⟩

def Setting.accepts (it : CreateRequest) : Prop := validateCreate here.setup.parseAddress here.now (defaultPriority it) = []

def Setting.single (key : String) (sub : Submitted ν) : Option Db :=
  match resolve here.setup here.now here.who here.table sub with
  | .error _ => none
  | .ok (req,version) => req.typed.bind (fun typed => persist here.now here.caller key version typed here.db)

def Setting.item (batchId : Nat) (it : CreateRequest) : Option Db :=
  (defaultPriority it).typed.bind (fun typed => insertBatchItem here.now batchId here.caller typed here.db)

def Setting.Agrees (key : String) (batchId : Nat) (sub : Submitted ν) : Prop :=
  (here.accepts sub.request → ∃ one other, here.single key sub = some one ∧ here.item batchId sub.request = some other ∧
    Alike here.db one other) ∧
  (¬ here.accepts sub.request → here.single key sub = none)

structure Setting.Plain (it : CreateRequest) : Prop where
  raw : it.templateId = none
  due : ∀ t, it.scheduledAt = some t → here.setup.schedulerEnabled = true ∧ t ≤ here.now
  short : it.recipient.length ≤ 320
  encoded : '\x00' ∉ it.recipient.toList ∧ '\x00' ∉ it.content.toList

variable {here : Setting ν}

theorem refusedAlone {key : String} {sub : Submitted ν} (refused : ¬ here.accepts sub.request) :
    here.single key sub = none := by
  unfold Setting.single
  cases ok : resolve here.setup here.now here.who here.table sub with
  | error why => rfl
  | ok done =>
    obtain ⟨req,version⟩ := done
    cases resolvedIff.mp ok with
    | raw valid => exact absurd valid refused
    | templated valid => exact absurd valid refused

theorem plainAgrees {key : String} {batchId : Nat} {sub : Submitted ν} (free : here.db.keyTaken (nullableString key) = false)
    (accepted : here.accepts sub.request) (plain : here.Plain sub.request) : ∃ one other, here.single key sub = some one ∧
      here.item batchId sub.request = some other ∧ Alike here.db one other := by
  obtain ⟨template,schedule,recipient,content⟩ := defaultSame sub.request
  obtain ⟨typed,decoded⟩ := validTyped accepted
  obtain ⟨_,sameRecipient,sameContent,sameTemplate,sameSchedule⟩ := typedFields decoded
  have encoded : '\x00' ∉ typed.recipient.toList ∧ '\x00' ∉ typed.content.toList := by
    rw [sameRecipient,sameContent,recipient,content]
    exact plain.encoded
  have raw : (defaultPriority sub.request).templateId = none := template.trans plain.raw
  have short : (defaultPriority sub.request).recipient.length ≤ 320 := recipient ▸ plain.short
  have resolved : Resolved here.setup here.now here.who here.table sub (defaultPriority sub.request) none := by
    refine .raw accepted (fun given => ?_) raw
    obtain ⟨t,due⟩ := Option.isSome_iff_exists.mp given
    exact (plain.due t (schedule ▸ due)).1
  have unscheduled : scheduleOf here.now typed = none := by
    rw [scheduleOf,sameSchedule,schedule]
    cases due : sub.request.scheduledAt with
    | none => rfl
    | some t => simp [(plain.due t due).2]
  have alone : Checks ((persistParams here.now here.caller key none typed).row here.now) :=
    (resolvedChecks resolved decoded).mpr short
  have inBatch : Checks ((batchItemParams batchId here.caller typed).row here.now) :=
    (itemChecks accepted decoded).mpr ⟨short,raw⟩
  have stored : here.single key sub = some (withPending here.db ⟨_,alone⟩
      (requestOutbox here.now here.db.notifications.length typed here.correlationId)) := by
    rw [Setting.single,resolvedIff.mpr resolved]
    simp only [decoded,Option.bind_some]
    exact persistPending free alone encoded unscheduled
  have copied : here.item batchId sub.request = some (withPending here.db ⟨_,inBatch⟩
      (requestOutbox here.now here.db.notifications.length typed here.correlationId)) := by
    rw [Setting.item,decoded,Option.bind_some]
    exact batchItemPending inBatch encoded
  refine ⟨_,_,stored,copied,⟨⟨_,alone⟩,⟨_,inBatch⟩,rfl,rfl,?_⟩,rfl,rfl⟩
  simp [anonymous,persistParams,batchItemParams,InsertParams.row,unscheduled,sameTemplate,raw]

theorem agreesPlain {key : String} {batchId : Nat} {sub : Submitted ν} (accepted : here.accepts sub.request) {one other : Db}
    (alone : here.single key sub = some one) (inBatch : here.item batchId sub.request = some other)
    (alike : Alike here.db one other) : here.Plain sub.request := by
  obtain ⟨template,schedule,recipient,content⟩ := defaultSame sub.request
  obtain ⟨typed,decoded⟩ := validTyped accepted
  obtain ⟨_,sameRecipient,sameContent,sameTemplate,sameSchedule⟩ := typedFields decoded
  rw [Setting.item,decoded,Option.bind_some] at inBatch
  simp only [insertBatchItem,bind,Option.bind_eq_some_iff] at inBatch
  obtain ⟨written,inserted,last⟩ := inBatch
  obtain ⟨checks,same,_,encoded⟩ := insertedNotification inserted
  obtain ⟨short,raw⟩ := (itemChecks accepted decoded).mp checks
  have texts : '\x00' ∉ sub.request.recipient.toList ∧ '\x00' ∉ sub.request.content.toList := by
    rw [← recipient,← content,← sameRecipient,← sameContent]
    exact encoded
  refine ⟨template ▸ raw,fun t due => ?_,recipient ▸ short,texts⟩
  unfold Setting.single at alone
  cases ok : resolve here.setup here.now here.who here.table sub with
  | error why =>
    rw [ok] at alone
    contradiction
  | ok done =>
    obtain ⟨req,version⟩ := done
    rw [ok] at alone
    cases resolvedIff.mp ok with
    | templated _ _ named => rw [raw] at named; contradiction
    | raw _ enabled _ =>
      refine ⟨enabled (by rw [schedule,due]; rfl),?_⟩
      simp only [decoded,Option.bind_some] at alone
      obtain ⟨_,_,fits,single⟩ := persistRows alone
      obtain ⟨r,s,left,right,equal⟩ := alike.rows
      -- the rows differ in their status when the schedule lies ahead
      have first : r = ⟨_,fits⟩ := by simpa using left.symm.trans single
      have second : s = ⟨_,checks⟩ := by
        cases Option.some.inj last
        rw [same] at right
        simpa [Db.insertOutbox] using right.symm
      have status := congrArg Notification.status equal
      rw [first,second] at status
      by_contra ahead
      simp [anonymous,persistParams,batchItemParams,InsertParams.row,scheduleOf,sameSchedule,schedule,due,ahead] at status

structure Fits (it : CreateRequest) : Prop where
  short : it.recipient.length ≤ 320
  raw : it.templateId = none
  encoded : '\x00' ∉ it.recipient.toList ∧ '\x00' ∉ it.content.toList

theorem storableIff {call : Call} {plan : Plan} (planned : prepare here.setup.parseAddress here.now call = .ok plan) :
    BatchRepeats.Storable plan ↔ ∀ it ∈ call.items, here.accepts it → Fits it := by
  obtain ⟨listed,_⟩ := planListed 0 planned
  constructor
  · intro storable it mem accepted
    obtain ⟨template,_,recipient,content⟩ := defaultSame it
    obtain ⟨typed,decoded⟩ := validTyped accepted
    obtain ⟨_,sameRecipient,sameContent,_⟩ := typedFields decoded
    have stored : typed ∈ plan.accepted := (listedMember listed).mpr ⟨_,List.mem_map_of_mem mem,accepted,decoded⟩
    obtain ⟨checks,encoded⟩ := storable typed stored
    obtain ⟨short,raw⟩ := (itemChecks accepted decoded).mp checks
    refine ⟨recipient ▸ short,template ▸ raw,?_⟩
    rw [← recipient,← content,← sameRecipient,← sameContent]
    exact encoded
  · intro each typed stored
    obtain ⟨_,mem,accepted,decoded⟩ := (listedMember listed).mp stored
    obtain ⟨it,inside,rfl⟩ := List.mem_map.mp mem
    obtain ⟨template,_,recipient,content⟩ := defaultSame it
    obtain ⟨_,sameRecipient,sameContent,_⟩ := typedFields decoded
    have fits := each it inside accepted
    refine ⟨(itemChecks accepted decoded).mpr ⟨recipient ▸ fits.short,template ▸ fits.raw⟩,?_⟩
    show '\x00' ∉ typed.recipient.toList ∧ '\x00' ∉ typed.content.toList
    rw [sameRecipient,sameContent,recipient,content]
    exact fits.encoded

/-- An accepted item is treated as if it were sent alone exactly when it is plain; one accepted item that cannot be
stored is the end of all the others. -/
theorem batchItemsLikeSingle (here : Setting ν) {key : String} (free : here.db.keyTaken (nullableString key) = false) :
    (∀ batchId sub, here.Agrees key batchId sub ↔ (here.accepts sub.request → here.Plain sub.request)) ∧
    ∀ call plan, prepare here.setup.parseAddress here.now call = .ok plan →
      ((Batch.commit here.now here.who.owner call plan here.db).2 ≠ .failed ↔
        ∀ it ∈ call.items, here.accepts it → Fits it) := by
  constructor
  · intro batchId sub
    constructor
    · intro agrees accepted
      obtain ⟨one,other,alone,inBatch,alike⟩ := agrees.1 accepted
      exact agreesPlain accepted alone inBatch alike
    · intro plain
      exact ⟨fun accepted => plainAgrees free accepted (plain accepted),refusedAlone⟩
  · intro call plan planned
    rw [← storableIff planned]
    rcases BatchRepeats.commitSpec here.now here.who.owner call plan here.db with ⟨storable,_,created⟩ | ⟨unfit,failed⟩
    · rw [created]
      exact iff_of_true (fun same => by cases same) storable
    · rw [failed]
      exact iff_of_false (fun other => other rfl) unfit

end

def quiet : Setting Unit := ⟨plainSetup,0,writer,"c",[],Db.empty⟩

def textItem (due : Option Nat) : Submitted Unit := ⟨⟨"sms","+905551234567","hi",none,"",due⟩,noVars⟩

theorem textAgrees : quiet.Agrees "k" 0 (textItem none) :=
  ((batchItemsLikeSingle quiet rfl).1 0 (textItem none)).mpr fun _ => ⟨rfl,fun _ given => (by cases given),by decide,by decide⟩

theorem scheduleIgnored : ¬ ∀ (here : Setting Unit) (key : String) (batchId : Nat) (sub : Submitted Unit),
    here.db.keyTaken (nullableString key) = false → here.Agrees key batchId sub := by
  intro agrees
  have accepted : quiet.accepts (textItem (some 60000)).request := by
    unfold Setting.accepts
    decide +kernel
  obtain ⟨one,other,alone,inBatch,alike⟩ := (agrees quiet "k" 0 (textItem (some 60000)) rfl).1 accepted
  have plain := agreesPlain accepted alone inBatch alike
  exact absurd (plain.due 60000 rfl).2 (by decide)

end Notifyd.BatchItems
