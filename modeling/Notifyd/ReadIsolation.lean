import Notifyd.Reads

/-! What a non-admin key can tell apart. Every query of the read handlers but one looks at the rows of the
caller only, so two databases that agree on these rows answer alike; the exception is the lookup of a
batch, which is made for any id. -/
namespace Notifyd.ReadIsolation
open Numerals Uuids Ordered Reads

structure Agree (owner : UUID) (db db' : Tables) : Prop where
  notifications : ∀ n : Notification, n.createdBy = some owner → (n ∈ db.notifications ↔ n ∈ db'.notifications)
  templates : ∀ t : Template, t.createdBy = some owner → (t ∈ db.templates ↔ t ∈ db'.templates)
  batches : ∀ n ∈ db.notifications, n.createdBy = some owner → ∀ id, n.batchId = some id →
    db.getBatchByID id = db'.getBatchByID id

def Exposed [Parser] (db db' : Tables) (ctx : Context) (r : Request) : Prop :=
  ∃ param id owner, r = .getByBatch param ∧ ctx.key.hasScope "notifications:read" = true ∧ Uuids.parse param = some id ∧
    ownerFromCtx ctx.key = some owner ∧ (∀ n ∈ db.notifications, n.createdBy = some owner → n.batchId ≠ some id) ∧
    db.getBatchByID id ≠ db'.getBatchByID id

section Scoped
variable {α : Type} {id : α → UUID} {createdBy : α → Option UUID} {rows rows' : List α} {owner : UUID}

theorem scopedPerm (ids : Distinct id rows) (ids' : Distinct id rows')
    (agree : ∀ a, createdBy a = some owner → (a ∈ rows ↔ a ∈ rows')) (p : α → Bool) :
    (rows.filter (fun a => createdBy a == some owner && p a)).Perm
      (rows'.filter (fun a => createdBy a == some owner && p a)) := by
  have left : rows.Nodup := List.Nodup.of_map id ids
  have right : rows'.Nodup := List.Nodup.of_map id ids'
  rw [List.perm_ext_iff_of_nodup (left.filter _) (right.filter _)]
  intro a
  simp only [List.mem_filter,Bool.and_eq_true,beq_iff_eq]
  constructor
  · intro both
    exact ⟨(agree a both.2.1).mp both.1,both.2⟩
  · intro both
    exact ⟨(agree a both.2.1).mpr both.1,both.2⟩

theorem scopedFind (ids : Distinct id rows) (ids' : Distinct id rows')
    (agree : ∀ a, createdBy a = some owner → (a ∈ rows ↔ a ∈ rows')) (k : UUID) :
    rows.find? (fun a => id a == k && createdBy a == some owner) =
      rows'.find? (fun a => id a == k && createdBy a == some owner) := by
  apply Option.ext
  intro a
  rw [findKey ids,findKey ids',beq_iff_eq]
  constructor
  · intro both
    exact ⟨(agree a both.2.2).mp both.1,both.2⟩
  · intro both
    exact ⟨(agree a both.2.2).mpr both.1,both.2⟩

end Scoped

theorem templateVisible [Parser] (db : Tables) (id owner : UUID) :
    (db.getTemplateByID id).filter (fun t => t.createdBy == some owner) =
      db.templates.find? (fun t => t.id == id && t.createdBy == some owner) := by
  apply Option.ext
  intro t
  have any : db.getTemplateByID id = some t ↔ t ∈ db.templates ∧ t.id = id := by
    have found := findKey db.templateIds (k := id) (p := fun _ => true) (a := t)
    simpa [Tables.getTemplateByID] using found
  rw [findKey db.templateIds,Option.filter_eq_some_iff,any]
  exact and_assoc

section Handlers
variable [Parser] {timeParse : Text → Option Int} {db db' : Tables} {ctx : Context}
  (confined : ctx.key.hasScope "admin" = false)
  (agree : ∀ owner, ownerFromCtx ctx.key = some owner → Agree owner db db')
include confined

theorem templatesGetOwn (db : Tables) (param : Text) : templatesGet db ctx param =
    match Uuids.parse param with
    | none => writeValidationProblem ctx "id" "must be a UUID"
    | some id => match (ownerFromCtx ctx.key).bind (fun owner =>
        db.templates.find? (fun t => t.id == id && t.createdBy == some owner)) with
      | none => writeNotFound ctx errTemplateNotFound
      | some t => ⟨200,.template (templateRowToResponse t)⟩ := by
  unfold templatesGet
  cases Uuids.parse param with
  | none => rfl
  | some id =>
    cases own : ownerFromCtx ctx.key with
    | none => cases found : db.getTemplateByID id <;> simp [confined,found]
    | some owner =>
      simp only [Option.bind_some,← templateVisible]
      cases db.getTemplateByID id with
      | none => rfl
      | some t =>
        cases creator : t.createdBy with
        | none => simp [confined,creator,Option.filter]
        | some c =>
          by_cases same : c = owner
          · simp [confined,creator,same,Option.filter]
          · simp [confined,creator,same,Option.filter]

include agree

theorem getAlike (param : Text) : Reads.get db ctx param = Reads.get db' ctx param := by
  unfold Reads.get
  cases Uuids.parse param with
  | none => rfl
  | some id =>
    have row : (ownerFromCtx ctx.key).bind (db.getNotificationByIDScoped id) =
        (ownerFromCtx ctx.key).bind (db'.getNotificationByIDScoped id) := by
      cases own : ownerFromCtx ctx.key with
      | none => rfl
      | some owner =>
        exact scopedFind db.notificationIds db'.notificationIds (agree owner own).notifications id
    simp only [confined,Bool.false_eq_true,if_false,row]

theorem templatesGetAlike (param : Text) : templatesGet db ctx param = templatesGet db' ctx param := by
  rw [templatesGetOwn confined,templatesGetOwn confined]
  cases own : ownerFromCtx ctx.key with
  | none => rfl
  | some owner =>
    have row := scopedFind db.templateIds db'.templateIds (agree owner own).templates
    simp only [Option.bind_some,row]

theorem templatesListAlike (param : Text) : templatesList db ctx param = templatesList db' ctx param := by
  unfold templatesList
  cases limitOf param with
  | none => rfl
  | some limit =>
    cases own : ownerFromCtx ctx.key with
    | none => simp only [confined,Bool.false_eq_true,if_false]
    | some owner =>
      have rows : db.listActiveTemplatesScoped owner limit = db'.listActiveTemplatesScoped owner limit :=
        congrArg (List.take limit) (orderSame (templatePlaceDistinct db' _)
          (scopedPerm db.templateIds db'.templateIds (agree owner own).templates _))
      simp only [confined,Bool.false_eq_true,if_false,rows]

omit agree in
theorem listFilterOwner {q : ListQuery} {limit : Nat} {f : Filter} (built : listFilter timeParse ctx q = .ok (limit,f)) :
    ∃ owner, ownerFromCtx ctx.key = some owner ∧ f.owner = some owner := by
  obtain ⟨_,_,own,_⟩ := (listFilterOk timeParse).mp built
  simp only [ownerClause,confined,Bool.false_eq_true,if_false] at own
  split at own <;> try contradiction
  rename_i owner found
  exact ⟨owner,found,(Except.ok.inj own).symm⟩

theorem listAlike (q : ListQuery) : list timeParse db ctx q = list timeParse db' ctx q := by
  unfold list
  cases built : listFilter timeParse ctx q with
  | error r => rfl
  | ok found =>
    obtain ⟨limit,f⟩ := found
    obtain ⟨owner,own,named⟩ := listFilterOwner confined built
    have clause : ∀ n, (f.matches n && f.afterCursor n) =
      (n.createdBy == some owner && ((f.status.all (fun s => n.status == s) &&
        (f.channel.all (fun c => n.channel == c) && (f.batchId.all (fun b => n.batchId == some b) &&
        (f.createdAfter.all (fun t => decide (micros t ≤ n.createdAt.micros)) &&
        f.createdBefore.all (fun t => decide ((n.createdAt.micros : Int) < micros t)))))) && f.afterCursor n)) := by
      intro n
      simp only [Filter.matches,named,Option.all_some,Bool.and_assoc]
    have rows : db.listRows f limit = db'.listRows f limit := by
      simp only [Tables.listRows,clause]
      exact congrArg (List.take (limit + 1)) (orderSame (placeDistinct db' _)
        (scopedPerm db.notificationIds db'.notificationIds (agree owner own).notifications _))
    simp only [rows]

omit confined in
theorem itemsAlike {owner : UUID} (own : ownerFromCtx ctx.key = some owner) (id : UUID) :
    db.getNotificationsByBatchIDScoped id owner = db'.getNotificationsByBatchIDScoped id owner :=
  orderSame (placeDistinct db' _) (scopedPerm db.notificationIds db'.notificationIds (agree owner own).notifications _)

theorem getByBatchAlike {param : Text} {id owner : UUID} (parsed : Uuids.parse param = some id)
    (own : ownerFromCtx ctx.key = some owner) :
    getByBatch db ctx param = getByBatch db' ctx param ↔ db.getBatchByID id = db'.getBatchByID id := by
  have items := itemsAlike agree own id
  simp only [getByBatch,parsed,confined,Bool.false_eq_true,if_false,own,items]
  have missing : ∀ body, writeNotFound ctx errNotFound ≠ ⟨200,body⟩ := fun _ same => by
    have statuses : 404 = 200 := congrArg Response.status same
    omega
  cases db.getBatchByID id with
  | none => cases db'.getBatchByID id with
    | none => exact ⟨fun _ => rfl,fun _ => rfl⟩
    | some b' => exact ⟨fun same => absurd same (missing _),fun same => by cases same⟩
  | some b => cases db'.getBatchByID id with
    | none => exact ⟨fun same => absurd same.symm (missing _),fun same => by cases same⟩
    | some b' =>
      simp only [Response.mk.injEq,Body.batch.injEq,Option.some.injEq,and_true,true_and]

omit agree in
theorem getByBatchUnowned {param : Text} (none_ : ownerFromCtx ctx.key = none ∨ Uuids.parse param = none) :
    getByBatch db ctx param = getByBatch db' ctx param := by
  unfold getByBatch
  cases parsed : Uuids.parse param with
  | none => rfl
  | some id =>
    have unowned : ownerFromCtx ctx.key = none := none_.resolve_right (by simp [parsed])
    simp only [unowned,confined,Bool.false_eq_true,if_false]
    cases db.getBatchByID id <;> cases db'.getBatchByID id <;> rfl

end Handlers

theorem readsAlikeIff [Parser] (timeParse : Text → Option Int) {db db' : Tables} {ctx : Context}
    (confined : ctx.key.hasScope "admin" = false)
    (agree : ∀ owner, ownerFromCtx ctx.key = some owner → Agree owner db db') (r : Request) :
    serve timeParse db ctx r = serve timeParse db' ctx r ↔ ¬ Exposed db db' ctx r := by
  unfold serve
  cases allowed : ctx.key.hasScope "notifications:read" with
  | false =>
    simp only [Bool.false_eq_true,if_false,true_iff]
    rintro ⟨_,_,_,_,may,_⟩
    rw [allowed] at may
    contradiction
  | true =>
    simp only [if_true]
    have route : ∀ {x y : Response}, (∀ param, r ≠ .getByBatch param) → x = y → (x = y ↔ ¬ Exposed db db' ctx r) :=
      fun differs same => ⟨fun _ ⟨param,_,_,named,_⟩ => differs param named,fun _ => same⟩
    cases r with
    | get id => exact route (fun _ same => by cases same) (getAlike confined agree id)
    | list q => exact route (fun _ same => by cases same) (listAlike confined agree q)
    | templatesGet id => exact route (fun _ same => by cases same) (templatesGetAlike confined agree id)
    | templatesList limit => exact route (fun _ same => by cases same) (templatesListAlike confined agree limit)
    | getByBatch param =>
      cases parsed : Uuids.parse param with
      | none =>
        refine ⟨fun _ => ?_,fun _ => getByBatchUnowned confined (.inr parsed)⟩
        rintro ⟨_,id,_,same,_,found,_⟩
        cases same
        rw [parsed] at found
        cases found
      | some id => cases own : ownerFromCtx ctx.key with
        | none =>
          refine ⟨fun _ => ?_,fun _ => getByBatchUnowned confined (.inl own)⟩
          rintro ⟨_,_,owner,_,_,_,named,_⟩
          rw [own] at named
          cases named
        | some owner =>
          rw [handle,handle,getByBatchAlike confined agree parsed own]
          constructor
          · rintro same ⟨_,_,_,named,_,found,_,_,differs⟩
            cases named
            cases Option.some.inj (parsed.symm.trans found)
            exact differs same
          · intro hidden
            by_contra differs
            refine hidden ⟨param,id,owner,rfl,allowed,parsed,own,fun n mem mine inside => ?_,differs⟩
            exact differs ((agree owner own).batches n mem mine id inside)

def sample (id owner : UUID) (batchId : Option UUID) : Notification :=
  ⟨id,batchId,.sms,"+15550100".toList,"hi".toList,5,.queued,0,none,none,⟨0,Calendar.startRange⟩,
    ⟨0,Calendar.startRange⟩,none,[],none,none,
    some owner⟩

def reader : Context := ⟨⟨Uuids.string 1,["notifications:read"]⟩,[]⟩

def quiet : Tables := ⟨[sample 10 1 none],[],[],List.nodup_singleton _,List.nodup_nil,List.nodup_nil⟩

def foreign : Tables := ⟨[sample 10 1 none,sample 11 2 (some 7)],[],[⟨7,.accepted,1,1,0⟩],by unfold Distinct; decide,
  List.nodup_nil,List.nodup_singleton _⟩

theorem readerAgrees [Parser] : ∀ owner, ownerFromCtx reader.key = some owner → Agree owner quiet foreign := by
  intro owner own
  have named : owner = 1 := (Option.some.inj ((Uuids.parseString 1).symm.trans own)).symm
  subst named
  constructor
  · intro n mine
    simp only [quiet,foreign,List.mem_cons,List.not_mem_nil,or_false]
    constructor
    · exact .inl
    · rintro (own | other)
      · exact own
      · rw [other] at mine
        exact absurd mine (by decide)
  · intro t _
    exact Iff.rfl
  · intro n mem _ id inside
    rw [List.mem_singleton.mp mem] at inside
    cases inside

section Sample
attribute [local instance] canonical

theorem foreignNotificationHidden : serve Calendar.parseRFC3339 quiet reader (.get (Uuids.string 11)) =
    serve Calendar.parseRFC3339 foreign reader (.get (Uuids.string 11)) := by
  refine (readsAlikeIff Calendar.parseRFC3339 (by decide) readerAgrees _).mpr ?_
  rintro ⟨_,_,_,named,_⟩
  cases named

theorem batchRouteShowsForeignBatches : ¬ ∀ (db db' : Tables) (ctx : Context) (r : Request),
    ctx.key.hasScope "admin" = false → (∀ owner, ownerFromCtx ctx.key = some owner → Agree owner db db') →
      serve Calendar.parseRFC3339 db ctx r = serve Calendar.parseRFC3339 db' ctx r := by
  intro alike
  have same := alike quiet foreign reader (.getByBatch (Uuids.string 7)) (by decide) readerAgrees
  have missing : (serve Calendar.parseRFC3339 quiet reader (.getByBatch (Uuids.string 7))).status = 404 := by
    simp only [serve,show reader.key.hasScope "notifications:read" = true by decide,if_true,handle,getByBatch,Uuids.parseString]
    rfl
  have shown : (serve Calendar.parseRFC3339 foreign reader (.getByBatch (Uuids.string 7))).status = 200 := by
    simp only [serve,show reader.key.hasScope "notifications:read" = true by decide,if_true,handle,getByBatch,Uuids.parseString,
      show reader.key.hasScope "admin" = false by decide,Bool.false_eq_true,if_false,
      show ownerFromCtx reader.key = some 1 from Uuids.parseString 1]
    rfl
  rw [same,shown] at missing
  contradiction

end Sample

end Notifyd.ReadIsolation
