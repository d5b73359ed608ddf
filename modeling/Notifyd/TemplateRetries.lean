import Notifyd.CanonicalHash
import Notifyd.ColumnLimits
import Notifyd.Idempotency

/-! Retries of a templated request. The handler renders the template before it looks at the Idempotency-Key, and the
rendered content goes into the hash: what a retry is answered depends on the template as it is by then. -/
namespace Notifyd.TemplateRetries
open Domain Validate Numerals JsonValues Templates CanonicalHash Expiring
open Batch (defaultPriority defaultSame)
open RequiredVars (checkRequired)
open Idempotency (Record Slots claimSlot replayOf finalize statusCreated defaultTTL)

section
variable {ν : Type}

/- `templateText` and `stampText` are the JSON texts of a template's id and of a time; `sha256` gives the digest in hex. -/
structure Service (ν : Type) where
  setup : Setup ν
  numbers : Numbers ν
  sha256 : List UInt8 → String
  templateText : Nat → Text
  stampText : Nat → Text

def present (members : List (Text × Option (Value ν))) : List (Text × Value ν) :=
  members.filterMap (fun f => f.2.map (fun x => (f.1,x)))

theorem memPresent {members : List (Text × Option (Value ν))} {k : Text} {x : Value ν} :
    (k,x) ∈ present members ↔ (k,some x) ∈ members := by
  simp only [present,List.mem_filterMap,Option.map_eq_some_iff,Prod.mk.injEq]
  constructor
  · rintro ⟨⟨name,o⟩,mem,y,found,rfl,rfl⟩
    exact found ▸ mem
  · intro mem
    exact ⟨_,mem,x,rfl,rfl,rfl⟩

theorem presentNames (members : List (Text × Option (Value ν))) :
    ((present members).map Prod.fst).Sublist (members.map Prod.fst) := by
  induction members with
  | nil => exact .slnil
  | cons f rest ih =>
    obtain ⟨name,o⟩ := f
    cases o with
    | none => exact .cons _ ih
    | some x => exact .cons_cons _ ih

variable (svc : Service ν)

def Service.members (req : CreateRequest) (vars : Vars ν) : List (Text × Option (Value ν)) :=
  [("channel".toList,some (.str req.channel.toList)),
   ("recipient".toList,some (.str req.recipient.toList)),
   ("content".toList,if req.content = "" then none else some (.str req.content.toList)),
   ("template_id".toList,req.templateId.map (fun id => .str (svc.templateText id))),
   ("variables".toList,if vars.val = [] then none else some (.obj vars.val)),
   ("priority".toList,some (.str req.priority.toList)),
   ("scheduled_at".toList,req.scheduledAt.map (fun t => .str (svc.stampText t)))]

def Service.bodyHash (req : CreateRequest) (vars : Vars ν) : Option String :=
  canonicalHash svc.sha256 svc.numbers (.obj (present (svc.members req vars)))

inductive Answer where
  | refused (why : Refusal)
  | unhashed
  | claimed
  | replayed (rec : Record)
  | stopped (why : Idempotency.Refusal)
  deriving DecidableEq, Repr

def Service.answer (now : Nat) (who : Who) (key : String) (table : Table) (slots : Slots) (sub : Submitted ν) : Answer :=
  match resolve svc.setup now who table sub with
  | .error why => .refused why
  | .ok (req,_) =>
      match svc.bodyHash req sub.vars with
      | none => .unhashed
      | some hash =>
          match claimSlot now who.owner.text key hash slots with
          | some _ => .claimed
          | none =>
              match replayOf hash (get now (Idempotency.key who.owner.text key) slots) with
              | .ok rec => .replayed rec
              | .error why => .stopped why

variable {svc}

theorem replayedSource {now : Nat} {who : Who} {key : String} {table : Table} {slots : Slots} {sub : Submitted ν} {rec : Record}
    (answered : svc.answer now who key table slots sub = .replayed rec) : ∃ req version hash,
      Resolved svc.setup now who table sub req version ∧ svc.bodyHash req sub.vars = some hash ∧
      replayOf hash (get now (Idempotency.key who.owner.text key) slots) = .ok rec := by
  unfold Service.answer at answered
  split at answered <;> try contradiction
  rename_i resolved
  split at answered <;> try contradiction
  rename_i hashed
  split at answered <;> try contradiction
  split at answered <;> try contradiction
  rename_i replayed
  cases answered
  exact ⟨_,_,_,resolvedIff.mp resolved,hashed,replayed⟩

theorem namesDistinct (req : CreateRequest) (vars : Vars ν) : ((present (svc.members req vars)).map Prod.fst).Nodup := by
  refine (presentNames _).nodup ?_
  simp only [Service.members,List.map_cons,List.map_nil]
  decide

theorem memberCases {req : CreateRequest} {vars : Vars ν} {k : Text} {x : Value ν}
    (mem : (k,x) ∈ present (svc.members req vars)) :
    (∃ text, x = .str text) ∨ x = .obj vars.val := by
  have listed := memPresent.mp mem
  simp only [Service.members,List.mem_cons,List.not_mem_nil,or_false,Prod.mk.injEq] at listed
  rcases listed with ⟨_,same⟩ | ⟨_,same⟩ | ⟨_,same⟩ | ⟨_,same⟩ | ⟨_,same⟩ | ⟨_,same⟩ | ⟨_,same⟩
  · exact .inl ⟨_,Option.some.inj same⟩
  · exact .inl ⟨_,Option.some.inj same⟩
  · split at same <;> try contradiction
    exact .inl ⟨_,Option.some.inj same⟩
  · obtain ⟨id,_,text⟩ := Option.map_eq_some_iff.mp same.symm
    exact .inl ⟨_,text.symm⟩
  · split at same <;> try contradiction
    exact .inr (Option.some.inj same)
  · exact .inl ⟨_,Option.some.inj same⟩
  · obtain ⟨t,_,text⟩ := Option.map_eq_some_iff.mp same.symm
    exact .inl ⟨_,text.symm⟩

theorem bodyDistinct (req : CreateRequest) (vars : Vars ν) : Distinct (.obj (present (svc.members req vars))) := by
  refine ⟨namesDistinct req vars,distinctFields.mpr ?_⟩
  rintro ⟨k,x⟩ mem
  rcases memberCases mem with ⟨text,rfl⟩ | rfl
  · trivial
  · exact vars.property

theorem hashSome (req : CreateRequest) (vars : Vars ν) : ∃ hash, svc.bodyHash req vars = some hash :=
  ⟨_,by rw [Service.bodyHash,canonicalHash,bytesOf svc.numbers (bodyDistinct req vars)]; rfl⟩

theorem contentMember {req : CreateRequest} {vars : Vars ν} {x : Value ν} :
    ("content".toList,x) ∈ present (svc.members req vars) ↔ req.content ≠ "" ∧ x = .str req.content.toList := by
  rw [memPresent]
  have others : ∀ name ∈ ["channel","recipient","template_id","variables","priority","scheduled_at"],
      "content".toList ≠ name.toList := by decide
  simp only [List.forall_mem_cons,List.not_mem_nil,IsEmpty.forall_iff,implies_true,and_true] at others
  simp only [Service.members,List.mem_cons,Prod.mk.injEq,others,true_and,false_and,false_or,or_false,List.not_mem_nil]
  split <;> simp_all

theorem hashContent (injective : Function.Injective svc.sha256) {req other : CreateRequest} {vars : Vars ν}
    (given : req.content ≠ "") (same : svc.bodyHash req vars = svc.bodyHash other vars) : other.content = req.content := by
  have bytes := Option.map_injective injective same
  have forms := (bytesSame svc.numbers (bodyDistinct req vars) (bodyDistinct other vars)).mp bytes
  obtain ⟨y,mem,equal⟩ := ((canonicalObject (namesDistinct req vars) (namesDistinct other vars)).mp forms).1 _ _
    (contentMember.mpr ⟨given,rfl⟩)
  obtain ⟨_,rfl⟩ := contentMember.mp mem
  rw [canonicalize,canonicalize,Value.str.injEq] at equal
  exact (String.toList_inj.mp equal).symm

theorem validLater {parseAddress now later req} (valid : validateCreate parseAddress now req = []) (past : now ≤ later) :
    validateCreate parseAddress later req = [] := by
  unfold validateCreate at valid ⊢
  split
  · rename_i unknown
    rw [unknown] at valid
    contradiction
  · rename_i channel known
    simp only [known,List.append_eq_nil_iff,ite_eq_right_iff,reduceCtorEq,imp_false,Bool.not_eq_true] at valid ⊢
    refine ⟨valid.1,(Acceptance.horizonIff _ _).mpr fun t due => ?_⟩
    have bound := (Acceptance.horizonIff _ _).mp valid.2 t due
    omega

theorem renderedContent {parseAddress now req who} {engine : Engine ν} {vars : Vars ν} {t : Template} {text : String}
    (valid : validateCreate parseAddress now req = []) (rendered : Rendered engine who req.channel vars t text) :
    text ≠ "" := by
  obtain ⟨typed,decoded⟩ := validTyped valid
  have fits := rendered.fits
  rw [contentErrors,(typedFields decoded).1] at fits
  exact Utf8.lengthPositive.mp (ColumnLimits.contentFits fits).1

structure StillRenders (engine : Engine ν) (vars : Vars ν) (text : String) (t : Template) : Prop where
  active : t.deprecatedAt = none
  given : checkRequired t.requiredVars vars.get = []
  made : engine.render t.body vars = .ok text

theorem heldAnswer {now t : Nat} {owner key hash : String} {rec : Record} {slots : Slots} (live : now < t + defaultTTL)
    (done : rec.inFlight = false) :
    claimSlot now owner key hash (finalize t owner key rec slots) = none ∧
    replayOf hash (get now (Idempotency.key owner key) (finalize t owner key rec slots)) =
      if rec.bodyHash = hash then .ok rec else .error .conflict := by
  have found : get now (Idempotency.key owner key) (finalize t owner key rec slots) = some rec := by
    have held : {rec with inFlight := false} = rec := by rw [← done]
    exact (getLive setSame live).trans (congrArg some held)
  refine ⟨setNXHeld found,?_⟩
  rw [found,replayOf,done]
  split <;> simp_all

/-- The answer to a retry inside the TTL, after any edits of templates by anyone: the stored response exactly when the
template is in use and makes the content of the first request again. -/
theorem retryReplaysIff {svc : Service ν} (injective : Function.Injective svc.sha256) {s t u : State} {who : Who} {key : String}
    {sub : Submitted ν} {id : Nat} {req : CreateRequest} {version hash body slots} {during edits : List Edit}
    (templated : sub.request.templateId = some id) (created : resolve svc.setup s.now who s.table sub = .ok (req,version))
    (hashed : svc.bodyHash req sub.vars = some hash) (running : run svc.setup.engine s during = some t)
    (edited : run svc.setup.engine t edits = some u) (live : u.now < t.now + defaultTTL) :
    svc.answer u.now who key u.table (finalize t.now who.owner.text key ⟨hash,statusCreated,body,false⟩ slots) sub =
        .replayed ⟨hash,statusCreated,body,false⟩ ↔
      ∃ row, u.table[id]? = some row ∧ StillRenders svc.setup.engine sub.vars req.content row.val := by
  have named := (defaultSame sub.request).1.trans templated
  cases resolvedIff.mp created with
  | raw _ _ plain =>
    rw [named] at plain
    contradiction
  | @templated other old text valid schedule same found rendered =>
    cases Option.some.inj (named.symm.trans same)
    obtain ⟨past,row,present,owner⟩ := runOwner (Runs.runAppend.mpr ⟨t,running,edited⟩) found
    have sees : who.sees row.val = true := by
      have first := rendered.sees
      rw [Who.sees] at first ⊢
      rwa [owner]
    have again := validLater valid past
    constructor
    · intro answered
      obtain ⟨next,_,digest,resolved,rehashed,replayed⟩ := replayedSource answered
      rw [(heldAnswer live rfl).2] at replayed
      split at replayed <;> try contradiction
      rename_i equal
      -- the hashes agree, so the two contents do
      have content := hashContent injective (renderedContent valid rendered) (hashed.trans (equal ▸ rehashed.symm))
      cases resolved with
      | raw _ _ plain =>
        rw [named] at plain
        contradiction
      | @templated place row' text' _ _ name stored now =>
        cases Option.some.inj (named.symm.trans name)
        cases (show text' = text from content)
        exact ⟨row',stored,now.active,now.given,now.made⟩
    · rintro ⟨row',stored,still⟩
      cases Option.some.inj (present.symm.trans stored)
      have resolved := resolvedIff.mpr (.templated again schedule named present
        ⟨sees,still.active,still.given,still.made,rendered.fits⟩)
      obtain ⟨claim,replay⟩ := @heldAnswer u.now t.now who.owner.text key hash ⟨hash,statusCreated,body,false⟩ slots live rfl
      simp only [Service.answer,resolved,hashed,claim,replay]
      rfl

end

def spell (bytes : List UInt8) : String := String.ofList (bytes.map (fun b => Char.ofNat b.toNat))

theorem spellInjective : Function.Injective spell := by
  have kept (b : UInt8) : (Char.ofNat b.toNat).toNat = b.toNat := by
    have small : b.toNat < 256 := b.toNat_lt
    unfold Char.ofNat
    rw [dif_pos (.inl (by omega))]
    rfl
  have single : Function.Injective (fun b : UInt8 => Char.ofNat b.toNat) := by
    intro a b same
    have codes := congrArg Char.toNat same
    rw [kept a,kept b] at codes
    exact UInt8.toNat_inj.mp codes
  intro xs ys same
  exact List.map_injective_iff.mpr single (String.ofList_injective same)

theorem unitNumber : JsonText.isNumber ['1'] = true := rfl

def units : Numbers Unit := ⟨fun _ => ⟨['1'],unitNumber⟩,fun _ => some (),fun _ => rfl⟩

def service : Service Unit := ⟨ColumnLimits.plainSetup,units,spell,fun _ => [],fun _ => []⟩

def greeting : Template := ⟨"greeting",.sms,1,"Hello",[],0,0,none,some ColumnLimits.writer.owner⟩

def opened : State := ⟨0,[⟨greeting,by decide⟩]⟩

def greet : Submitted Unit := ⟨⟨"sms","+905551234567","",some 0,"normal",none⟩,ColumnLimits.noVars⟩

def greeted : CreateRequest := ⟨"sms","+905551234567","Hello",some 0,"normal",none⟩

theorem greetResolves : resolve service.setup 0 ColumnLimits.writer opened.table greet = .ok (greeted,some 1) := by
  have valid : validateCreate service.setup.parseAddress 0 (defaultPriority greet.request) = [] := by decide +kernel
  have fits : contentErrors "sms" "Hello" = [] := by decide +kernel
  have rendered : Rendered service.setup.engine ColumnLimits.writer "sms" greet.vars greeting "Hello" :=
    ⟨by decide,rfl,rfl,rfl,fits⟩
  exact resolvedIff.mpr (@Resolved.templated Unit service.setup 0 ColumnLimits.writer opened.table greet 0
    ⟨greeting,by decide⟩ "Hello" valid (fun given => by cases given) rfl rfl rendered)

def rewritten : State := ⟨1000,[⟨{greeting with version := 2, updatedAt := 1000},by decide⟩]⟩

theorem greetReplayed : ∃ hash, service.answer 1000 ColumnLimits.writer "k" rewritten.table
    (finalize 0 ColumnLimits.writer.owner.text "k" ⟨hash,statusCreated,none,false⟩ fun _ => none) greet =
      .replayed ⟨hash,statusCreated,none,false⟩ := by
  obtain ⟨hash,hashed⟩ := @hashSome Unit service greeted greet.vars
  have edited : run service.setup.engine opened [.tick 1000,.put ColumnLimits.writer 0 "Hello"] = some rewritten := by
    decide +kernel
  exact ⟨hash,(retryReplaysIff spellInjective rfl greetResolves hashed (rfl : run _ opened [] = some opened) edited
    (by decide)).mpr ⟨_,rfl,rfl,rfl,rfl⟩⟩

def removed : State := ⟨0,[⟨{greeting with deprecatedAt := some 0},by decide⟩]⟩

theorem retryRefused : ¬ ∀ (svc : Service Unit) (s t u : State) (who : Who) (key : String) (sub : Submitted Unit) (id : Nat)
    (req : CreateRequest) (version : Option Nat) (hash : String) (body : Option Idempotency.Response) (slots : Slots)
    (during edits : List Edit), Function.Injective svc.sha256 → sub.request.templateId = some id →
    resolve svc.setup s.now who s.table sub = .ok (req,version) → svc.bodyHash req sub.vars = some hash →
    run svc.setup.engine s during = some t → run svc.setup.engine t edits = some u → u.now < t.now + defaultTTL →
    svc.answer u.now who key u.table (finalize t.now who.owner.text key ⟨hash,statusCreated,body,false⟩ slots) sub =
      .replayed ⟨hash,statusCreated,body,false⟩ := by
  intro replays
  obtain ⟨hash,hashed⟩ := @hashSome Unit service greeted greet.vars
  have deleted : run service.setup.engine opened [.del ColumnLimits.writer 0] = some removed := by decide +kernel
  have answered := replays service opened opened removed ColumnLimits.writer "k" greet 0 greeted (some 1) hash none
    (fun _ => none) [] [.del ColumnLimits.writer 0] spellInjective rfl greetResolves hashed rfl deleted (by decide)
  obtain ⟨_,_,_,resolved,_⟩ := replayedSource answered
  cases resolved with
  | raw _ _ plain => cases plain
  | templated _ _ named found rendered =>
    cases named
    cases found
    exact absurd rendered.active (by decide)

end Notifyd.TemplateRetries
