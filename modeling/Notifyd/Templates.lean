import Notifyd.Batch
import Notifyd.RequiredVars

/-! The handlers of `internal/api/templates.go` that write templates, `Render` of `internal/template`, and `create` of
`internal/api/notifications.go` up to the lookup of the Idempotency-Key. A template is rendered there, from its row
as it stands at that moment. -/
namespace Notifyd.Templates
open Domain Validate Numerals JsonValues
open Batch (defaultPriority)
open RequiredVars (references checkRequired)

structure Template where
  name : String
  channel : Channel
  version : Nat
  body : String
  requiredVars : List Text
  createdAt : Nat
  updatedAt : Nat
  deprecatedAt : Option Nat
  createdBy : Option Uuid
  deriving DecidableEq, Repr

def Constraints (t : Template) : Prop :=
  (1 ≤ t.name.length ∧ t.name.length ≤ 100) ∧ 1 ≤ t.version ∧ (1 ≤ t.body.length ∧ t.body.length ≤ 32768)

instance (t) : Decidable (Constraints t) := by unfold Constraints; infer_instance

abbrev Stored := {t : Template // Constraints t}

abbrev Table := List Stored

def taken (table : Table) (t : Template) : Bool :=
  table.any (fun r => r.val.name == t.name && r.val.channel == t.channel && r.val.version == t.version)

structure Who where
  owner : Uuid
  admin : Bool
  deriving DecidableEq, Repr

def Who.sees (who : Who) (t : Template) : Bool := who.admin || t.createdBy == some who.owner

section
variable {ν : Type}

abbrev Vars (ν : Type) := {fields : List (Text × Value ν) // Distinct (.obj fields)}

def Vars.get (vars : Vars ν) (name : Text) : Option (Value ν) := vars.val.lookup name

structure Engine (ν : Type) where
  parseError : String → Option String
  execute : String → Vars ν → Except String String

variable (engine : Engine ν)

def Engine.parse (body : String) : Except String (List Text) :=
  match engine.parseError body with
  | some why => .error ("template: parse failed\n" ++ why)
  | none => .ok (references body.toList)

def Engine.render (body : String) (vars : Vars ν) : Except String String :=
  match engine.parse body with
  | .error why => .error why
  | .ok _ =>
      match engine.execute body vars with
      | .error why => .error ("template: render failed\n" ++ why)
      | .ok text => .ok text

inductive Reply where
  | invalid (errors : List FieldError)
  | notFound
  | failed
  | stored (t : Template)
  | gone
  deriving DecidableEq, Repr

structure CreateTemplate where
  name : String
  channel : String
  body : String
  deriving DecidableEq, Repr

def validateTemplateCreate (req : CreateTemplate) : List FieldError :=
  (if req.name = "" ∨ 100 < req.name.utf8ByteSize then [⟨"name","must be 1..100 chars"⟩] else []) ++
  (if (channelOf req.channel).isNone then [⟨"channel","must be sms | email | push"⟩] else []) ++
  (if req.body = "" ∨ 32768 < req.body.utf8ByteSize then [⟨"body","must be 1..32768 chars"⟩] else [])

def fresh (now : Nat) (who : Who) (channel : Channel) (vars : List Text) (req : CreateTemplate) : Template :=
  ⟨req.name,channel,1,req.body,vars,now,now,none,some who.owner⟩

def write (table : Table) (t : Template) (place : Stored → Table) : Table × Reply :=
  if taken table t then (table,.failed)
  else if fits : Constraints t then (place ⟨t,fits⟩,.stored t)
  else (table,.failed)

def create (now : Nat) (who : Who) (req : CreateTemplate) (table : Table) : Table × Reply :=
  match validateTemplateCreate req,engine.parse req.body,channelOf req.channel with
  | [],.ok vars,some channel => write table (fresh now who channel vars req) (fun row => table ++ [row])
  | [],.error why,_ => (table,.invalid [⟨"body",why⟩])
  | errors,_,_ => (table,.invalid errors)

def Template.bump (now : Nat) (body : String) (vars : List Text) (t : Template) : Template :=
  {t with body := body, requiredVars := vars, version := t.version + 1, updatedAt := now}

/- Only the emptiness of the new body is checked. -/
def put (now : Nat) (who : Who) (id : Nat) (body : String) (table : Table) : Table × Reply :=
  if body = "" then (table,.invalid [⟨"body","must not be empty"⟩])
  else match engine.parse body,table[id]? with
  | .error why,_ => (table,.invalid [⟨"body",why⟩])
  | .ok _,none => (table,.notFound)
  | .ok vars,some row =>
      if who.sees row.val ∧ row.val.deprecatedAt = none then
        write table (row.val.bump now body vars) (fun row => table.set id row)
      else (table,.notFound)

def deprecateTemplate (now : Nat) (row : Stored) : Stored := ⟨{row.val with deprecatedAt := some now},row.property⟩

/- The statement of an administrator does not say whether it found a row. -/
def del (now : Nat) (who : Who) (id : Nat) (table : Table) : Table × Reply :=
  match table[id]? with
  | some row =>
      if who.sees row.val ∧ row.val.deprecatedAt = none then (table.set id (deprecateTemplate now row),.gone)
      else (table,if who.admin then .gone else .notFound)
  | none => (table,if who.admin then .gone else .notFound)

structure State where
  now : Nat
  table : Table
  deriving DecidableEq, Repr

inductive Edit where
  | tick (elapsed : Nat)
  | create (who : Who) (req : CreateTemplate)
  | put (who : Who) (id : Nat) (body : String)
  | del (who : Who) (id : Nat)
  deriving DecidableEq, Repr

def step (s : State) : Edit → Option State
  | .tick elapsed => some {s with now := s.now + elapsed}
  | .create who req => some {s with table := (create engine s.now who req s.table).1}
  | .put who id body => some {s with table := (put engine s.now who id body s.table).1}
  | .del who id => some {s with table := (del s.now who id s.table).1}

abbrev run := Runs.run (step engine)

inductive Changes (table : Table) : Table → Prop
  | same : Changes table table
  | added {row : Stored} : Changes table (table ++ [row])
  | changed {id : Nat} {row next : Stored} (found : table[id]? = some row)
      (owner : next.val.createdBy = row.val.createdBy) : Changes table (table.set id next)

variable {engine}

theorem writeChanges {table : Table} {t : Template} {place : Stored → Table}
    (each : ∀ fits : Constraints t, Changes table (place ⟨t,fits⟩)) : Changes table (write table t place).1 := by
  unfold write
  split
  · exact .same
  · split
    · exact each (by assumption)
    · exact .same

theorem createChanges (now : Nat) (who : Who) (req : CreateTemplate) (table : Table) :
    Changes table (create engine now who req table).1 := by
  unfold create
  split
  · exact writeChanges (fun _ => .added)
  · exact .same
  · exact .same

theorem putChanges (now : Nat) (who : Who) (id : Nat) (body : String) (table : Table) :
    Changes table (put engine now who id body table).1 := by
  unfold put
  split
  · exact .same
  · split
    · exact .same
    · exact .same
    · rename_i found
      split
      · exact writeChanges (fun _ => .changed found rfl)
      · exact .same

theorem delChanges (now : Nat) (who : Who) (id : Nat) (table : Table) : Changes table (del now who id table).1 := by
  unfold del
  split
  · rename_i found
    split
    · exact .changed found rfl
    · exact .same
  · exact .same

theorem stepChanges {s t : State} {e : Edit} (taken : step engine s e = some t) : s.now ≤ t.now ∧ Changes s.table t.table := by
  cases e <;> cases Option.some.inj taken
  case tick elapsed => exact ⟨Nat.le_add_right ..,.same⟩
  case create who req => exact ⟨Nat.le_refl _,createChanges ..⟩
  case put who id body => exact ⟨Nat.le_refl _,putChanges ..⟩
  case del who id => exact ⟨Nat.le_refl _,delChanges ..⟩

theorem changesOwner {table after : Table} (changes : Changes table after) {id : Nat} {row : Stored}
    (found : table[id]? = some row) : ∃ next, after[id]? = some next ∧ next.val.createdBy = row.val.createdBy := by
  cases changes with
  | same => exact ⟨row,found,rfl⟩
  | added =>
    obtain ⟨inside,_⟩ := List.getElem?_eq_some_iff.mp found
    exact ⟨row,by rw [List.getElem?_append_left inside,found],rfl⟩
  | @changed other old next place owner =>
    obtain ⟨inside,_⟩ := List.getElem?_eq_some_iff.mp found
    by_cases here : other = id
    · subst here
      cases Option.some.inj (found.symm.trans place)
      exact ⟨next,by rw [List.getElem?_set_self inside],owner⟩
    · exact ⟨row,by rw [List.getElem?_set_ne here,found],rfl⟩

theorem runOwner {s t : State} {edits : List Edit} (ok : run engine s edits = some t) {id : Nat} {row : Stored}
    (found : s.table[id]? = some row) :
    s.now ≤ t.now ∧ ∃ next, t.table[id]? = some next ∧ next.val.createdBy = row.val.createdBy := by
  have keep : ∀ (u : State) (e : Edit) (v : State),
      (s.now ≤ u.now ∧ ∃ next, u.table[id]? = some next ∧ next.val.createdBy = row.val.createdBy) →
      step engine u e = some v →
      s.now ≤ v.now ∧ ∃ next, v.table[id]? = some next ∧ next.val.createdBy = row.val.createdBy := by
    rintro u e v ⟨past,old,stored,owner⟩ taken
    obtain ⟨later,changes⟩ := stepChanges taken
    obtain ⟨next,present,same⟩ := changesOwner changes stored
    exact ⟨Nat.le_trans past later,next,present,same.trans owner⟩
  exact Runs.invariant keep ⟨Nat.le_refl _,row,found,rfl⟩ ok

end

section
variable {ν : Type}

structure Setup (ν : Type) where
  parseAddress : String → Bool
  schedulerEnabled : Bool
  engine : Engine ν

structure Submitted (ν : Type) where
  request : CreateRequest
  vars : Vars ν

inductive Refusal where
  | invalid (errors : List FieldError)
  | notFound
  deriving DecidableEq, Repr

def missingVariable (name : Text) : FieldError := ⟨"variables." ++ String.ofList name,"missing required variable"⟩

def contentErrors (channel text : String) : List FieldError :=
  match channelOf channel with
  | some channel => validateContent channel text
  | none => []

def useTemplate (engine : Engine ν) (who : Who) (channel : String) (vars : Vars ν) (t : Template) : Except Refusal String :=
  if who.sees t = false then .error .notFound
  else if t.deprecatedAt.isSome then .error (.invalid [⟨"template_id","template is deprecated"⟩])
  else match checkRequired t.requiredVars vars.get,engine.render t.body vars with
  | [],.ok text => if contentErrors channel text = [] then .ok text else .error (.invalid (contentErrors channel text))
  | [],.error why => .error (.invalid [⟨"variables",why⟩])
  | absent,_ => .error (.invalid (absent.map missingVariable))

def resolve (setup : Setup ν) (now : Nat) (who : Who) (table : Table) (sub : Submitted ν) :
    Except Refusal (CreateRequest × Option Nat) :=
  let req := defaultPriority sub.request
  if validateCreate setup.parseAddress now req ≠ [] then .error (.invalid (validateCreate setup.parseAddress now req))
  else if req.scheduledAt.isSome ∧ setup.schedulerEnabled = false then
    .error (.invalid [⟨"scheduled_at","scheduler is disabled on this deployment; submit without scheduled_at"⟩])
  else match req.templateId with
  | none => .ok (req,none)
  | some id =>
      match table[id]? with
      | none => .error .notFound
      | some row =>
          match useTemplate setup.engine who req.channel sub.vars row.val with
          | .error why => .error why
          | .ok text => .ok ({req with content := text},some row.val.version)

structure Rendered (engine : Engine ν) (who : Who) (channel : String) (vars : Vars ν) (t : Template) (text : String) :
    Prop where
  sees : who.sees t = true
  active : t.deprecatedAt = none
  given : checkRequired t.requiredVars vars.get = []
  made : engine.render t.body vars = .ok text
  fits : contentErrors channel text = []

theorem renderedIff {engine : Engine ν} {who channel vars t text} :
    useTemplate engine who channel vars t = .ok text ↔ Rendered engine who channel vars t text := by
  unfold useTemplate
  constructor
  · intro ok
    split at ok <;> try contradiction
    rename_i sees
    split at ok <;> try contradiction
    rename_i active
    split at ok <;> try contradiction
    rename_i given made
    split at ok <;> try contradiction
    rename_i fits
    cases ok
    exact ⟨by simpa using sees,by simpa using active,given,made,fits⟩
  · rintro ⟨sees,active,given,made,fits⟩
    simp [sees,active,given,made,fits]

inductive Resolved (setup : Setup ν) (now : Nat) (who : Who) (table : Table) (sub : Submitted ν) :
    CreateRequest → Option Nat → Prop
  | raw (valid : validateCreate setup.parseAddress now (defaultPriority sub.request) = [])
      (schedule : (defaultPriority sub.request).scheduledAt.isSome → setup.schedulerEnabled = true)
      (plain : (defaultPriority sub.request).templateId = none) :
      Resolved setup now who table sub (defaultPriority sub.request) none
  | templated {id : Nat} {row : Stored} {text : String}
      (valid : validateCreate setup.parseAddress now (defaultPriority sub.request) = [])
      (schedule : (defaultPriority sub.request).scheduledAt.isSome → setup.schedulerEnabled = true)
      (named : (defaultPriority sub.request).templateId = some id) (found : table[id]? = some row)
      (rendered : Rendered setup.engine who (defaultPriority sub.request).channel sub.vars row.val text) :
      Resolved setup now who table sub {defaultPriority sub.request with content := text} (some row.val.version)

theorem resolvedIff {setup : Setup ν} {now who table sub req version} :
    resolve setup now who table sub = .ok (req,version) ↔ Resolved setup now who table sub req version := by
  unfold resolve
  constructor
  · intro ok
    simp only at ok
    split at ok <;> try contradiction
    rename_i valid
    split at ok <;> try contradiction
    rename_i schedule
    have enabled : (defaultPriority sub.request).scheduledAt.isSome → setup.schedulerEnabled = true := by
      simpa using schedule
    split at ok
    · cases ok
      exact .raw (not_not.mp valid) enabled (by assumption)
    · split at ok <;> try contradiction
      rename_i found
      split at ok <;> try contradiction
      rename_i used
      cases ok
      exact .templated (not_not.mp valid) enabled (by assumption) found (renderedIff.mp used)
  · rintro (⟨valid,schedule,plain⟩ | ⟨valid,schedule,named,found,rendered⟩)
    · simp only [valid,ne_eq,not_true_eq_false,if_false,plain]
      rw [if_neg]
      rintro ⟨given,disabled⟩
      exact absurd (schedule given) (by rw [disabled]; decide)
    · have used := renderedIff.mpr rendered
      simp only [valid,ne_eq,not_true_eq_false,if_false,named,found,used]
      rw [if_neg]
      rintro ⟨given,disabled⟩
      exact absurd (schedule given) (by rw [disabled]; decide)

end

end Notifyd.Templates
