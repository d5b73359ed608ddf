import Notifyd.Batch

/-! What a batch request answers against what it stores, for every way the database may carry out the
transaction. The handler fills the results in two passes, the second by the indices that the first
has kept. -/
namespace Notifyd.BatchAccounting
open Domain Store Create Validate Batch

/- A COMMIT may also take effect with its acknowledgement lost. -/
inductive Outcome where
  | done | refused | lost
  deriving DecidableEq, Repr

structure Behaviour where
  begins : Bool
  batchRow : Bool
  item : Nat → Bool
  commit : Outcome

def Behaviour.carries (behaviour : Behaviour) (plan : Plan) : Bool :=
  behaviour.begins && behaviour.batchRow && plan.valid.all (fun entry => behaviour.item entry.1)

section
variable (parseAddress : String → Bool)

def createBatch (behaviour : Behaviour) (now : Nat) (owner : Uuid) (call : Call) (db : Db) : Db × Reply :=
  match prepare parseAddress now call with
  | .error reply => (db,reply)
  | .ok plan =>
      if behaviour.carries plan then
        let (stored,reply) := commit now owner call plan db
        match behaviour.commit with
        | .done => (stored,reply)
        | .refused => (db,.failed)
        | .lost => (stored,.failed)
      else (db,.failed)

inductive Listed (now : Nat) : Nat → NotificationId → List CreateRequest → List ItemResult → List Request → Prop
  | nil {i id} : Listed now i id [] [] []
  | taken {i id it its req results reqs} (valid : validateCreate parseAddress now it = []) (typed : it.typed = some req) :
      Listed now (i + 1) (id + 1) its results reqs →
      Listed now i id (it::its) (⟨i,some id,some .pending,none⟩::results) (req::reqs)
  | refused {i id it its results reqs} (invalid : validateCreate parseAddress now it ≠ []) :
      Listed now (i + 1) id its results reqs →
      Listed now i id (it::its)
        (⟨i,none,none,some (itemProblem (validateCreate parseAddress now it))⟩::results) reqs

structure Accounted (now : Nat) (caller : Caller) (call : Call) (db stored : Db) (response : Response) : Prop where
  length : response.items.length = call.items.length
  each : ∀ (i : Nat) it (r : ItemResult), call.items[i]? = some it → response.items[i]? = some r → r.index = i ∧
    (r.id.isSome ↔ validateCreate parseAddress now (defaultPriority it) = []) ∧ (r.error.isSome ↔ ¬ r.id.isSome)
  ids : response.items.filterMap ItemResult.id = List.range' db.notifications.length response.acceptedCount
  total : response.totalCount = call.items.length ∧ response.acceptedCount + response.rejectedCount = response.totalCount
  accepted : response.status = .accepted ↔ response.rejectedCount = 0
  partly : response.status = .partlyAccepted ↔ 0 < response.rejectedCount ∧ 0 < response.acceptedCount
  rejected : response.status = .rejected ↔ response.acceptedCount = 0
  nothing : response.status = .rejected → stored = db
  notifications : ∃ rows : List Row, stored.notifications = db.notifications ++ rows ∧
    rows.length = response.acceptedCount ∧ ∀ r ∈ rows, r.val.batchId.isSome ∧ r.val.batchId = response.batchId
  outbox : ∃ added, stored.outbox = db.outbox ++ added ∧
    added.map OutboxRow.notificationId = response.items.filterMap ItemResult.id
  placed : ∀ (i : Nat) it (r : ItemResult) id, call.items[i]? = some it → response.items[i]? = some r →
    r.id = some id → ∃ b req,
    response.batchId = some b ∧ (defaultPriority it).typed = some req ∧
    stored.row id = some ((batchItemParams b caller req).row now)

end

section
variable {parseAddress : String → Bool} {now : Nat}

theorem listedLength {i id its results reqs} (listed : Listed parseAddress now i id its results reqs) :
    results.length = its.length := by
  induction listed with
  | nil => rfl
  | taken _ _ _ ih => exact congrArg (· + 1) ih
  | refused _ _ ih => exact congrArg (· + 1) ih

theorem listedIds {i id its results reqs} (listed : Listed parseAddress now i id its results reqs) :
    results.filterMap ItemResult.id = List.range' id reqs.length := by
  induction listed with
  | nil => rfl
  | taken _ _ _ ih => rw [List.filterMap_cons,ih,List.length_cons,List.range'_succ]
  | refused _ _ ih => rw [List.filterMap_cons,ih]

theorem listedMember {i id its results reqs req} (listed : Listed parseAddress now i id its results reqs) :
    req ∈ reqs ↔ ∃ it ∈ its, validateCreate parseAddress now it = [] ∧ it.typed = some req := by
  induction listed with
  | nil => simp
  | @taken i id it its first results reqs valid typed _ ih =>
    have head : it.typed = some req ↔ req = first := by rw [typed,Option.some_inj,eq_comm]
    simp [ih,valid,head]
  | refused invalid _ ih => simp [ih,invalid]

theorem listedEach {i id its results reqs} (listed : Listed parseAddress now i id its results reqs)
    {k : Nat} {it : CreateRequest} {r : ItemResult} (item : its[k]? = some it) (result : results[k]? = some r) :
    r.index = i + k ∧
    (r.id.isSome ↔ validateCreate parseAddress now it = []) ∧ (r.error.isSome ↔ ¬ r.id.isSome) := by
  induction listed generalizing k with
  | nil => contradiction
  | taken valid _ _ ih =>
    cases k with
    | zero =>
      cases item
      cases result
      exact ⟨rfl,by simp [valid],by simp⟩
    | succ k =>
      obtain ⟨index,rest⟩ := ih item result
      exact ⟨by omega,rest⟩
  | refused invalid _ ih =>
    cases k with
    | zero =>
      cases item
      cases result
      exact ⟨rfl,by simp [invalid],by simp⟩
    | succ k =>
      obtain ⟨index,rest⟩ := ih item result
      exact ⟨by omega,rest⟩

theorem listedPlaced {i id its results reqs} (listed : Listed parseAddress now i id its results reqs)
    {k : Nat} {it : CreateRequest} {r : ItemResult} {n : NotificationId} (item : its[k]? = some it)
    (result : results[k]? = some r) (given : r.id = some n) :
    ∃ req j, n = id + j ∧ it.typed = some req ∧ reqs[j]? = some req := by
  induction listed generalizing k with
  | nil => contradiction
  | @taken i id it its req results reqs _ typed _ ih =>
    cases k with
    | zero =>
      cases item
      cases result
      cases given
      exact ⟨req,0,rfl,typed,rfl⟩
    | succ k =>
      obtain ⟨req,j,place,typed,stored⟩ := ih item result
      exact ⟨req,j + 1,by rw [place,Nat.add_right_comm]; rfl,typed,stored⟩
  | refused _ _ ih =>
    cases k with
    | zero =>
      cases result
      contradiction
    | succ k => exact ih item result

theorem filled (id : NotificationId) (its : List CreateRequest) (front : List ItemResult) :
    ∃ results, Listed parseAddress now front.length id its results
        ((prevalidate parseAddress now front.length its).2.filterMap (fun entry => entry.2.typed)) ∧
      fill id (prevalidate parseAddress now front.length its).2
        (front ++ (prevalidate parseAddress now front.length its).1) = front ++ results := by
  induction its generalizing id front with
  | nil => exact ⟨[],.nil,rfl⟩
  | cons it its ih =>
    cases errors : validateCreate parseAddress now it with
    | nil =>
      obtain ⟨req,typed⟩ := validTyped errors
      obtain ⟨results,listed,same⟩ := ih (id + 1) (front ++ [⟨front.length,some id,some .pending,none⟩])
      rw [List.length_append,List.length_singleton] at listed same
      refine ⟨⟨front.length,some id,some .pending,none⟩::results,?_,?_⟩
      · simp only [prevalidate,errors,List.filterMap_cons,typed]
        exact .taken errors typed listed
      · simp only [prevalidate,errors,fill]
        rw [List.set_append_right _ _ (Nat.le_refl _),Nat.sub_self,List.set_cons_zero]
        rw [List.append_assoc,List.append_assoc] at same
        exact same
    | cons e es =>
      obtain ⟨results,listed,same⟩ := ih id (front ++ [⟨front.length,none,none,some (itemProblem (e::es))⟩])
      rw [List.length_append,List.length_singleton] at listed same
      refine ⟨⟨front.length,none,none,some (itemProblem (e::es))⟩::results,?_,?_⟩
      · simp only [prevalidate,errors]
        exact errors ▸ .refused (by simp [errors]) listed
      · simp only [prevalidate,errors]
        rw [List.append_assoc,List.append_assoc] at same
        exact same

theorem acceptedLength (i : Nat) (its : List CreateRequest) :
    ((prevalidate parseAddress now i its).2.filterMap (fun entry => entry.2.typed)).length =
      (prevalidate parseAddress now i its).2.length ∧
    (prevalidate parseAddress now i its).2.length ≤ its.length := by
  induction its generalizing i with
  | nil => exact ⟨rfl,Nat.le_refl _⟩
  | cons it its ih =>
    obtain ⟨same,bound⟩ := ih (i + 1)
    cases errors : validateCreate parseAddress now it with
    | nil =>
      obtain ⟨req,typed⟩ := validTyped errors
      simp only [prevalidate,errors,List.filterMap_cons,typed,List.length_cons]
      omega
    | cons e es =>
      simp only [prevalidate,errors,List.length_cons]
      omega

theorem planListed {call plan} (id : NotificationId) (planned : prepare parseAddress now call = .ok plan) :
    Listed parseAddress now 0 id (call.items.map defaultPriority) (fill id plan.valid plan.results) plan.accepted ∧
    plan.items.length = call.items.length ∧ plan.accepted.length = plan.valid.length ∧
    0 < plan.valid.length ∧ plan.valid.length ≤ plan.items.length := by
  unfold prepare at planned
  split at planned <;> try contradiction
  split at planned <;> try contradiction
  simp only at planned
  split at planned <;> try contradiction
  rename_i some
  cases planned
  obtain ⟨results,listed,same⟩ := @filled parseAddress now id (call.items.map defaultPriority) []
  obtain ⟨accepted,bound⟩ := @acceptedLength parseAddress now 0 (call.items.map defaultPriority)
  simp only [List.length_nil,List.nil_append] at listed same
  exact ⟨same ▸ listed,List.length_map ..,accepted,Nat.pos_of_ne_zero some,bound⟩

theorem preparedNone {call reply} (few : 0 < call.items.length) (many : call.items.length ≤ maxBatchItems)
    (refused : prepare parseAddress now call = .error reply) :
    (prevalidate parseAddress now 0 (call.items.map defaultPriority)).2 = [] ∧
    reply = .rejected ⟨none,.rejected,call.items.length,0,call.items.length,
      (prevalidate parseAddress now 0 (call.items.map defaultPriority)).1⟩ := by
  unfold prepare at refused
  rw [if_neg (Nat.ne_of_gt few),if_neg (Nat.not_lt.mpr many)] at refused
  simp only at refused
  split at refused <;> try contradiction
  rename_i none
  cases refused
  exact ⟨List.length_eq_zero_iff.mp none,by simp⟩

theorem itemsAccounted {id reqs} {call : Call} {results : List ItemResult}
    (listed : Listed parseAddress now 0 id (call.items.map defaultPriority) results reqs) :
    results.length = call.items.length ∧ ∀ (i : Nat) it (r : ItemResult), call.items[i]? = some it →
      results[i]? = some r → r.index = i ∧
      (r.id.isSome ↔ validateCreate parseAddress now (defaultPriority it) = []) ∧ (r.error.isSome ↔ ¬ r.id.isSome) := by
  refine ⟨(listedLength listed).trans (List.length_map ..),fun i it r item result => ?_⟩
  have mapped : (call.items.map defaultPriority)[i]? = some (defaultPriority it) := by rw [List.getElem?_map,item]; rfl
  obtain ⟨index,rest⟩ := listedEach listed mapped result
  exact ⟨by omega,rest⟩

theorem rejectedAccounted {call reply caller db} (few : 0 < call.items.length) (many : call.items.length ≤ maxBatchItems)
    (refused : prepare parseAddress now call = .error reply) : ∃ response, reply = .rejected response ∧
      response.status = .rejected ∧ Accounted parseAddress now caller call db db response := by
  obtain ⟨none,rfl⟩ := preparedNone few many refused
  obtain ⟨results,listed,same⟩ := @filled parseAddress now db.notifications.length (call.items.map defaultPriority) []
  simp only [List.length_nil,none,List.filterMap_nil,fill,List.nil_append] at listed same
  rw [same]
  obtain ⟨length,each⟩ := itemsAccounted listed
  have ids := listedIds listed
  refine ⟨_,rfl,rfl,⟨length,each,ids,⟨rfl,Nat.zero_add _⟩,?_,?_,?_,fun _ => rfl,
    ⟨[],by simp,rfl,by simp⟩,⟨[],by simp,ids.symm⟩,?_⟩⟩
  · simp only [reduceCtorEq,false_iff]
    omega
  · simp
  · simp
  · intro i it r id item result given
    obtain ⟨req,j,_,_,stored⟩ := listedPlaced listed (by rw [List.getElem?_map,item]; rfl) result given
    contradiction

theorem createdAccounted {owner call plan db stored} (planned : prepare parseAddress now call = .ok plan)
    (ok : persistBatch now ⟨some owner,call.correlationId⟩ (plan.row call.idemKey) plan.accepted db = some stored) :
    (plan.response db).status ≠ .rejected ∧
    Accounted parseAddress now ⟨some owner,call.correlationId⟩ call db stored (plan.response db) := by
  obtain ⟨listed,sizes,accepted,positive,bound⟩ := planListed db.notifications.length planned
  obtain ⟨length,each⟩ := itemsAccounted listed
  have ids := listedIds listed
  obtain ⟨_,_,rows,notifications,vals⟩ := batchItemsRows ok
  have outbox := batchItemsOutbox ok
  have count := congrArg List.length vals
  rw [List.length_map,List.length_map,accepted] at count
  have status : (plan.response db).status ≠ .rejected := by
    change plan.status ≠ .rejected
    unfold Plan.status
    split <;> decide
  refine ⟨status,⟨length,each,ids.trans (by rw [accepted]; rfl),?_,?_,?_,?_,?_,⟨rows,notifications,count,?_⟩,⟨_,outbox,?_⟩,?_⟩⟩
  · exact ⟨sizes,Nat.add_sub_of_le bound⟩
  · simp only [Plan.response,Plan.status]
    split
    · simp only [reduceCtorEq,false_iff]
      omega
    · simp only [true_iff]
      omega
  · simp only [Plan.response,Plan.status]
    split
    · simp only [true_iff]
      omega
    · simp only [reduceCtorEq,false_iff]
      omega
  · exact ⟨fun same => absurd same status,fun zero => absurd zero (Nat.ne_of_gt positive)⟩
  · exact fun same => absurd same status
  · intro r mem
    have listed := List.mem_map_of_mem (f := Subtype.val) mem
    rw [vals] at listed
    obtain ⟨req,_,same⟩ := List.mem_map.mp listed
    rw [← same]
    exact ⟨rfl,rfl⟩
  · rw [show (plan.response db).items = fill db.notifications.length plan.valid plan.results from rfl,ids]
    apply List.ext_getElem
    · simp
    · intro k _ _
      simp [requestOutbox,freshOutbox,insertBatch]
  · intro i it r id item result given
    obtain ⟨req,j,rfl,typed,stored⟩ := listedPlaced listed (by rw [List.getElem?_map,item]; rfl) result given
    refine ⟨db.batches.length,req,rfl,typed,?_⟩
    have place := congrArg (fun rows => rows[j]?) vals
    simp only [List.getElem?_map,stored,Option.map_some] at place
    rw [Db.row,notifications,insertBatch,List.getElem?_append_right (Nat.le_add_right ..),Nat.add_sub_cancel_left]
    exact place

theorem batchAccounted {behaviour owner call db stored reply} (few : 0 < call.items.length)
    (many : call.items.length ≤ maxBatchItems)
    (answered : createBatch parseAddress behaviour now owner call db = (stored,reply)) :
    reply = .failed ∧ (stored = db ∨ behaviour.commit = .lost ∧ ∃ response, response.status ≠ .rejected ∧
        Accounted parseAddress now ⟨some owner,call.correlationId⟩ call db stored response) ∨
      ∃ response, Accounted parseAddress now ⟨some owner,call.correlationId⟩ call db stored response ∧
        (reply = .rejected response ∧ response.status = .rejected ∨
          reply = .created response ∧ response.status ≠ .rejected) := by
  unfold createBatch at answered
  cases planned : prepare parseAddress now call with
  | error refusal =>
    rw [planned] at answered
    cases answered
    obtain ⟨response,rfl,status,accounted⟩ := @rejectedAccounted parseAddress now call _ _ db few many planned
    exact .inr ⟨response,accounted,.inl ⟨rfl,status⟩⟩
  | ok plan =>
    simp only [planned] at answered
    split at answered
    · cases ok : persistBatch now ⟨some owner,call.correlationId⟩ (plan.row call.idemKey) plan.accepted db with
      | none =>
        simp only [commit,ok] at answered
        split at answered <;> cases answered <;> exact .inl ⟨rfl,.inl rfl⟩
      | some written =>
        obtain ⟨status,accounted⟩ := createdAccounted planned ok
        simp only [commit,ok] at answered
        split at answered <;> cases answered
        · exact .inr ⟨_,accounted,.inr ⟨rfl,status⟩⟩
        · exact .inl ⟨rfl,.inl rfl⟩
        · rename_i lost
          exact .inl ⟨rfl,.inr ⟨lost,_,status,accounted⟩⟩
    · cases answered
      exact .inl ⟨rfl,.inl rfl⟩

end

def sender : Uuid := ⟨"0190f5fe-0000-7000-8000-000000000001",by decide⟩

def working : Behaviour := ⟨true,true,fun _ => true,.done⟩

def unacknowledged : Behaviour := {working with commit := .lost}

def noAddress (_ : String) : Bool := false

def pair : Call := ⟨[⟨"sms","","hi",none,"",none⟩,⟨"sms","+905551234567","hi",none,"",none⟩],"","c"⟩

def pairAnswer : Response :=
  ⟨some 0,.partlyAccepted,2,1,1,[⟨0,none,none,some (itemProblem [⟨"recipient","must not be empty"⟩])⟩,
    ⟨1,some 0,some .pending,none⟩]⟩

theorem pairAccounted : (createBatch noAddress working 0 sender pair Db.empty).2 = .created pairAnswer ∧
    Accounted noAddress 0 ⟨some sender,"c"⟩ pair Db.empty (createBatch noAddress working 0 sender pair Db.empty).1
      pairAnswer := by
  have created : (createBatch noAddress working 0 sender pair Db.empty).2 = .created pairAnswer := by decide +kernel
  refine ⟨created,?_⟩
  rcases batchAccounted (by decide) (by decide) (Prod.ext rfl created : createBatch noAddress working 0 sender pair
    Db.empty = ((createBatch noAddress working 0 sender pair Db.empty).1,.created pairAnswer))
    with ⟨failed,_⟩ | ⟨response,accounted,⟨rejected,_⟩ | ⟨same,_⟩⟩
  · contradiction
  · contradiction
  · cases same
    exact accounted

theorem lostBatchStored : ¬ ∀ (parseAddress : String → Bool) (behaviour : Behaviour) (now : Nat) (owner : Uuid) (call : Call)
    (db stored : Db) (reply : Reply), 0 < call.items.length → call.items.length ≤ maxBatchItems →
    createBatch parseAddress behaviour now owner call db = (stored,reply) →
    reply = .failed ∧ stored = db ∨
    ∃ response, Accounted parseAddress now ⟨some owner,call.correlationId⟩ call db stored response ∧
      (reply = .rejected response ∨ reply = .created response) := by
  intro accounts
  have failed : (createBatch noAddress unacknowledged 0 sender pair Db.empty).2 = .failed := by decide +kernel
  have rows : (createBatch noAddress unacknowledged 0 sender pair Db.empty).1.notifications.length = 1 := by decide +kernel
  rcases accounts noAddress unacknowledged 0 sender pair Db.empty
    (createBatch noAddress unacknowledged 0 sender pair Db.empty).1
    .failed (by decide) (by decide) (Prod.ext rfl failed)
    with ⟨_,same⟩ | ⟨response,_,rejected | created⟩
  · rw [same] at rows
    contradiction
  · contradiction
  · contradiction

end Notifyd.BatchAccounting
