import Notifyd.OutboxClaims
import Notifyd.ScheduledRelease

/-! The time stamps of the delivery system. Nothing is stamped with a time to come: a claim and `updated_at` lie in
the past, a lock runs out within its 60 seconds and a message leaves its wait queue within five minutes. A
notification in `scheduled` has its sidecar row. -/
namespace Notifyd.Clocks
open Domain Store Calls Delivery ScheduledRelease

def longestWait : Nat := WaitTier.fiveMinutes.ttl

theorem ttlLongest (tier : WaitTier) : tier.ttl ≤ longestWait := by
  cases tier <;> decide

structure Clocked (s : State) : Prop where
  rows : ∀ n x, s.db.row n = some x → x.updatedAt ≤ s.now
  outbox : ∀ (o : OutboxId) r c, s.db.outbox[o]? = some r → r.claim = some c → c.claimedAt ≤ s.now
  wait : ∀ m ready, (m,ready) ∈ s.wait → ready ≤ s.now + longestWait
  locks : ∀ n expiry, s.locks n = some expiry → expiry ≤ s.now + Pipeline.inflightTTL
  scheduled : ∀ n x c, s.db.scheduled n = some x → x.claim = some c → c.claimedAt ≤ s.now
  tables : TablesOk s.db

theorem nextUpdated {now : Nat} {st : RowStmt} {x : Notification} (past : x.updatedAt ≤ now) :
    (st.next now x).updatedAt ≤ now := by
  unfold RowStmt.next
  split
  · cases st <;> exact Nat.le_refl _
  · exact past

theorem addedUpdated {now : Nat} {db db' : Db} {rows : List Row} {n : NotificationId} {y : Notification}
    (added : db'.notifications = db.notifications ++ rows) (absent : db.row n = none)
    (stamped : ∀ row ∈ rows, row.val.updatedAt = now) (found : db'.row n = some y) : y.updatedAt ≤ now := by
  obtain ⟨row,stored,rfl⟩ := Option.map_eq_some_iff.mp found
  rw [added] at stored
  rcases List.mem_append.mp (List.mem_of_getElem? stored) with old | new
  · have outside : db.notifications.length ≤ n := List.getElem?_eq_none_iff.mp (Option.map_eq_none_iff.mp absent)
    rw [List.getElem?_append_right outside] at stored
    exact Nat.le_of_eq (stamped row (List.mem_of_getElem? stored))
  · exact Nat.le_of_eq (stamped row new)

theorem batchStamps {now batchId : Nat} {caller : Create.Caller} {items : List Create.Request} {rows : List Row}
    (vals : rows.map Subtype.val = items.map (fun req => (Create.batchItemParams batchId caller req).row now)) :
    ∀ row ∈ rows, row.val.updatedAt = now := by
  intro row mem
  have item : row.val ∈ rows.map Subtype.val := List.mem_map_of_mem mem
  rw [vals] at item
  obtain ⟨req,_,same⟩ := List.mem_map.mp item
  rw [← same]
  rfl

theorem performAbsent {s : State} {n : NotificationId} (e : Option Effect) (absent : s.db.row n = none) :
    (s.perform e).db.row n = none := by
  by_cases sent : ∃ st, e = some (.exec st n)
  · obtain ⟨st,rfl⟩ := sent
    rw [performExec,if_pos rfl,absent]
    rfl
  · rw [performQuiet s e n (fun st same => sent ⟨st,same⟩)]
    exact absent

theorem rowFresh {s t : State} {a n y} (taken : step s a = some t) (absent : s.db.row n = none)
    (found : t.db.row n = some y) : y.updatedAt ≤ s.now := by
  have never {o : Option Notification} (gone : o = none) (found : o = some y) : y.updatedAt ≤ s.now := by
    rw [gone] at found
    contradiction
  cases stepMoves taken with
  | create ok =>
    obtain ⟨_,_,checks,added⟩ := Create.persistRows ok
    refine addedUpdated added absent (fun row mem => ?_) found
    rw [List.mem_singleton.mp mem]
    rfl
  | createBatch ok =>
    obtain ⟨_,_,rows,added,vals⟩ := Create.batchItemsRows ok
    have grown : _ = s.db.notifications ++ rows := added
    exact addedUpdated grown absent (batchStamps vals) found
  | @cancel id scope o =>
    by_cases failed : o = .failed
    · subst o
      exact never absent found
    · exact never (by rw [cancelRowRow s id n scope failed,absent]; simp) found
  | replayCommit => exact never ((replayWritesRow s _ n).trans (by rw [absent]; simp)) found
  | purge => exact never (by rw [purgeRowRow,absent]) found
  | sweep => exact never (by rw [sweepRow,absent]; rfl) found
  | dispatchScheduled => exact never ((dispatchOneRow s _ n).trans (by rw [absent]; simp)) found
  | @dispatch d reply b e next busy moved => exact never (performAbsent e absent) found
  | @settle w reply j v busy settled => cases v <;> exact never absent found
  | @work w reply j e pc busy moved => exact never (performAbsent e absent) found
  | _ => exact never absent found

theorem rowsStep {s t : State} {a n y} (clocked : Clocked s) (taken : step s a = some t)
    (found : t.db.row n = some y) : y.updatedAt ≤ t.now := by
  have later := nowStep taken
  rcases rowStep taken found with same | ⟨x,st,before,_,rfl⟩ | ⟨absent,_⟩
  · exact Nat.le_trans (clocked.rows n y same) later
  · exact Nat.le_trans (nextUpdated (clocked.rows n x before)) later
  · exact Nat.le_trans (rowFresh taken absent found) later

theorem persistUnclaimed {now caller key version req db db'} {o : OutboxId} {r}
    (ok : Create.persist now caller key version req db = some db') (new : db.outbox.length ≤ o)
    (stored : db'.outbox[o]? = some r) : r.claim = none := by
  simp only [Create.persist,bind,Option.bind_eq_some_iff] at ok
  obtain ⟨mid,inserted,last⟩ := ok
  obtain ⟨_,same,_⟩ := insertedNotification inserted
  split at last <;> cases Option.some.inj last
  · have appended : (db.outbox ++ [Create.requestOutbox now db.notifications.length req caller.correlationId])[o]?
      = some r := by
      rw [same] at stored
      exact stored
    rw [List.getElem?_append_right new] at appended
    rw [List.mem_singleton.mp (List.mem_of_getElem? appended)]
    rfl
  · have unchanged : db.outbox[o]? = some r := by
      rw [same] at stored
      exact stored
    exact absurd unchanged (Create.pastEnd new)

theorem batchUnclaimed {now caller b items db db'} {o : OutboxId} {r}
    (ok : Create.persistBatch now caller b items db = some db') (new : db.outbox.length ≤ o)
    (stored : db'.outbox[o]? = some r) : r.claim = none := by
  have outside : (Create.insertBatch b db).outbox.length ≤ o := new
  rw [Create.batchItemsOutbox ok,List.getElem?_append_right outside] at stored
  obtain ⟨_,_,same⟩ := List.mem_mapIdx.mp (List.mem_of_getElem? stored)
  rw [← same]
  rfl

theorem outboxStep {s t : State} {a} {o : OutboxId} {r c} (clocked : Clocked s) (taken : step s a = some t)
    (stored : t.db.outbox[o]? = some r) (held : r.claim = some c) : c.claimedAt ≤ t.now := by
  have later := nowStep taken
  cases before : s.db.outbox[o]? with
  | some r₀ =>
    obtain ⟨r',after,moves⟩ := OutboxClaims.claimStep taken before
    cases Option.some.inj (after.symm.trans stored)
    rw [held] at moves
    generalize same : some c = claim at moves
    cases moves with
    | still => exact Nat.le_trans (clocked.outbox o r₀ c before same.symm) later
    | claimed =>
      cases Option.some.inj same
      exact later
    | cleared => contradiction
  | none =>
    have fresh : r.claim = none := by
      cases outboxOrigin taken stored with
      | old old =>
        rw [before] at old
        contradiction
      | created ok new => exact persistUnclaimed ok new stored
      | createdBatch ok new => exact batchUnclaimed ok new stored
      | replayed _ row => rw [row]; rfl
      | swept _ row => rw [row]; rfl
      | dispatched _ row => rw [row]; rfl
    rw [fresh] at held
    contradiction

theorem performLocks {s : State} {n : NotificationId} {expiry : Nat} {e : Option Effect}
    (held : (s.perform e).locks n = some expiry) :
    s.locks n = some expiry ∨ expiry = s.now + Pipeline.inflightTTL := by
  cases e with
  | none => exact .inl held
  | some e =>
    cases e with
    | setLock id => exact (Runs.updateSome held).elim (fun new => .inr new.2) (fun old => .inl old.2)
    | delLock id =>
      have kept : Function.update s.locks id none n = some expiry := held
      rw [Function.update_apply] at kept
      split at kept
      · contradiction
      · exact .inl kept
    | _ => exact .inl held

theorem locksStep {s t : State} {a n expiry} (taken : step s a = some t) (held : t.locks n = some expiry) :
    s.locks n = some expiry ∨ expiry = s.now + Pipeline.inflightTTL := by
  cases stepMoves taken with
  | @cancel id scope o =>
    unfold cancelRow at held
    split at held <;> exact .inl held
  | @purge id o audited => cases o <;> exact .inl held
  | @dispatchScheduled p id rest o head done =>
    refine .inl ?_
    have kept : (dispatchOne s id).locks = s.locks := by
      unfold dispatchOne
      split <;> rfl
    exact kept ▸ held
  | dispatch => exact performLocks held
  | @settle w reply j v busy settled => cases v <;> exact .inl held
  | work => exact performLocks held
  | _ => exact .inl held

theorem waitFrom {s t : State} {a m ready} (taken : step s a = some t) (mem : (m,ready) ∈ t.wait) :
    (m,ready) ∈ s.wait ∨ ∃ tier : WaitTier, ready = s.now + tier.ttl := by
  have published {e : Option Effect} (mem : (m,ready) ∈ (s.perform e).wait) :
      (m,ready) ∈ s.wait ∨ ∃ tier : WaitTier, ready = s.now + tier.ttl := by
    cases e with
    | none => exact .inl mem
    | some e =>
      cases e with
      | publishToWait tier x =>
        rcases List.mem_append.mp mem with old | new
        · exact .inl old
        · cases List.mem_singleton.mp new
          exact .inr ⟨tier,rfl⟩
      | _ => exact .inl mem
  cases stepMoves taken with
  | cancel => exact .inl ((cancelRowParties s _ _ _).wait ▸ mem)
  | purge => exact .inl ((purgeRowParties s _ _ _).wait ▸ mem)
  | dispatchScheduled => exact .inl ((dispatchOneParties s _).wait ▸ mem)
  | dispatch => exact published mem
  | @settle w reply j v busy settled => cases v <;> exact .inl mem
  | work => exact published mem
  | waitExpire => exact .inl (List.mem_of_mem_eraseIdx mem)
  | _ => exact .inl mem

theorem addsTables {db db' : Db} (tables : TablesOk db) (adds : Adds db db') : TablesOk db' := by
  refine ⟨fun id row held => ?_,fun id x found => ?_⟩
  · by_cases inside : id < db.notifications.length
    · rw [(adds.old id inside).2]
      exact tables.sidecar id row ⟨(adds.old id inside).1 ▸ held.1,held.2⟩
    · exact adds.fresh id row (Nat.le_of_not_lt inside) held
  · rcases adds.known id x found with before | inside
    · exact Nat.lt_of_lt_of_le (tables.known id x before) adds.length
    · exact inside

theorem tablesSame {db db' : Db} (tables : TablesOk db) (rows : db'.notifications = db.notifications)
    (sidecars : db'.scheduled = db.scheduled) : TablesOk db' := by
  refine ⟨fun id row held => ?_,fun id x found => ?_⟩
  · rw [sidecars]
    exact tables.sidecar id row ⟨rows ▸ held.1,held.2⟩
  · rw [rows]
    exact tables.known id x (sidecars ▸ found)

theorem insertsTables (now : Nat) (rows : List (NotificationId × Notification)) (db : Db) :
    (rows.foldl (fun db r => db.insertOutbox (rowOutbox now r.1 r.2)) db).notifications = db.notifications ∧
    (rows.foldl (fun db r => db.insertOutbox (rowOutbox now r.1 r.2)) db).scheduled = db.scheduled := by
  induction rows generalizing db with
  | nil => exact ⟨rfl,rfl⟩
  | cons r rest ih => exact ih _

theorem sweepTables {s : State} (tables : TablesOk s.db) : TablesOk (sweep s).db := by
  suffices swept : TablesOk (s.db.sweepStuckSending s.now stuckAfter).1 from
    tablesSame swept (insertsTables ..).1 (insertsTables ..).2
  refine ⟨fun id row held => ?_,fun id x found => ?_⟩
  · obtain ⟨stored,scheduled⟩ := held
    simp only [Db.sweepStuckSending,List.getElem?_map] at stored
    obtain ⟨before,found,rfl⟩ := Option.map_eq_some_iff.mp stored
    have untouched := scheduledUntouched scheduled
    rw [untouched] at scheduled ⊢
    exact tables.sidecar id before ⟨found,scheduled⟩
  · simp only [Db.sweepStuckSending,List.length_map]
    exact tables.known id x found

theorem dispatchOneTables {s : State} {id : NotificationId} (tables : TablesOk s.db) : TablesOk (dispatchOne s id).db := by
  unfold dispatchOne
  split
  · rename_i x m found hit
    obtain ⟨_,same,guard,_⟩ := answerRow hit
    cases Option.some.inj (found.symm.trans same)
    have marked : TablesOk ((s.db.update s.now .markScheduledPending id).insertOutbox (rowOutbox s.now id x)) :=
      tablesSame (updateTables tables ..) rfl rfl
    refine deleteTables (fun row held => ?_) (fun j row _ held => marked.sidecar j row held) marked.known
    have pending : RowStmt.markScheduledPending.next s.now x = RowStmt.markScheduledPending.set s.now x :=
      nextHit (rowChecks found) guard (fun _ _ => RowStmt.noConfusion)
    obtain ⟨stored,scheduled⟩ := held
    obtain ⟨before,here,rfl⟩ := Option.map_eq_some_iff.mp found
    have after : (s.db.update s.now .markScheduledPending id).notifications[id]? = some row := stored
    rw [updated,if_pos rfl,here] at after
    cases Option.some.inj after
    rw [onRowVal,pending] at scheduled
    cases scheduled
  · rename_i x found miss
    refine deleteTables (fun row held => ?_) (fun j row _ held => tables.sidecar j row held) tables.known
    obtain ⟨stored,scheduled⟩ := held
    have here : s.db.row id = some row.val := by rw [Db.row,stored]; rfl
    have hit : RowStmt.markScheduledPending.guard s.now row.val = true := by simp [RowStmt.guard,scheduled]
    rw [here,RowStmt.answer,if_pos hit] at miss
    split at miss <;> contradiction
  · exact tables

theorem insertDeadLetterTables (id : NotificationId) (reason : Option String) (p : Payload) (db : Db) :
    (db.insertDeadLetter id reason p).notifications = db.notifications ∧
    (db.insertDeadLetter id reason p).scheduled = db.scheduled := by
  unfold Db.insertDeadLetter
  split
  · split <;> exact ⟨rfl,rfl⟩
  · exact ⟨rfl,rfl⟩

theorem insertDeliveryAttemptTables (a : DeliveryAttempt) (db : Db) :
    (db.insertDeliveryAttempt a).notifications = db.notifications ∧
    (db.insertDeliveryAttempt a).scheduled = db.scheduled := by
  unfold Db.insertDeliveryAttempt
  split
  · exact ⟨rfl,rfl⟩
  · split <;> exact ⟨rfl,rfl⟩

theorem performScheduled (s : State) (e : Option Effect) : (s.perform e).db.scheduled = s.db.scheduled := by
  cases e with
  | none => rfl
  | some e =>
    cases e with
    | insertDeliveryAttempt a => exact (insertDeliveryAttemptTables a s.db).2
    | insertDeadLetter id reason p => exact (insertDeadLetterTables id reason p s.db).2
    | _ => rfl

theorem performTables {s : State} (e : Option Effect) (tables : TablesOk s.db) : TablesOk (s.perform e).db := by
  cases e with
  | none => exact tables
  | some e =>
    cases e with
    | exec st id => exact updateTables tables s.now st id
    | insertDeliveryAttempt a =>
      exact tablesSame tables (insertDeliveryAttemptTables a s.db).1 (insertDeliveryAttemptTables a s.db).2
    | insertDeadLetter id reason p =>
      exact tablesSame tables (insertDeadLetterTables id reason p s.db).1 (insertDeadLetterTables id reason p s.db).2
    | _ => exact tablesSame tables rfl rfl

theorem tablesStep {s t : State} {a} (taken : step s a = some t) (tables : TablesOk s.db) : TablesOk t.db := by
  cases stepMoves taken with
  | create ok => exact addsTables tables (persistAdds ok)
  | createBatch ok => exact addsTables tables (persistBatchAdds ok)
  | @cancel id scope o =>
    unfold cancelRow
    split
    · exact updateTables tables ..
    · exact tables
    · exact updateTables tables ..
  | @replayCommit r tx o begun done =>
    have reset : TablesOk (s.db.update s.now .replayReset tx.id) := updateTables tables ..
    exact tablesSame reset rfl rfl
  | @purge id o audited =>
    cases o with
    | ok => cases audited <;> exact tablesSame tables rfl rfl
    | failed => exact tables
    | lost => exact tablesSame tables rfl rfl
  | sweep => exact sweepTables tables
  | claimScheduled => exact stampTables tables ..
  | dispatchScheduled => exact dispatchOneTables tables
  | claimOutbox => exact tablesSame tables rfl rfl
  | dispatch => exact performTables _ tables
  | @settle w reply j v busy settled => cases v <;> exact tables
  | work => exact performTables _ tables
  | _ => exact tables

theorem persistSidecar {now caller key version req db db'} {id : NotificationId} {x : Scheduled}
    (ok : Create.persist now caller key version req db = some db') (found : db'.scheduled id = some x) :
    db.scheduled id = some x ∨ x.claim = none := by
  simp only [Create.persist,bind,Option.bind_eq_some_iff] at ok
  obtain ⟨mid,inserted,last⟩ := ok
  obtain ⟨_,rfl,_⟩ := insertedNotification inserted
  split at last <;> cases Option.some.inj last
  · exact .inl found
  · rcases Runs.updateSome found with ⟨_,rfl⟩ | ⟨_,before⟩
    · exact .inr rfl
    · exact .inl before

theorem dispatchOneSidecar {s : State} {id n : NotificationId} {x : Scheduled}
    (found : (dispatchOne s id).db.scheduled n = some x) : s.db.scheduled n = some x := by
  have kept (found : Function.update s.db.scheduled id none n = some x) : s.db.scheduled n = some x := by
    rw [Function.update_apply] at found
    split at found
    · contradiction
    · exact found
  unfold dispatchOne at found
  split at found
  · exact kept found
  · exact kept found
  · exact found

theorem sidecarStep {s t : State} {a n x} (taken : step s a = some t) (found : t.db.scheduled n = some x) :
    s.db.scheduled n = some x ∨ ∀ c, x.claim = some c → c.claimedAt ≤ s.now ∨
      ∃ y, s.db.scheduled n = some y ∧ y.claim = some c := by
  cases stepMoves taken with
  | create ok =>
    refine (persistSidecar ok found).imp_right (fun fresh c held => ?_)
    rw [fresh] at held
    contradiction
  | @createBatch caller b items db ok =>
    have same : db.scheduled = (Create.insertBatch b s.db).scheduled := batchItemsScheduled ok
    rw [same] at found
    exact .inl found
  | @cancel id scope o =>
    unfold cancelRow at found
    split at found <;> exact .inl found
  | @purge id o audited =>
    cases o with
    | ok => cases audited <;> exact .inl found
    | _ => exact .inl found
  | sweep =>
    have same : (sweep s).db.scheduled = s.db.scheduled := (insertsTables s.now _ _).2
    exact .inl (same ▸ found)
  | claimScheduled =>
    obtain ⟨y,before,rfl⟩ := Option.map_eq_some_iff.mp found
    refine .inr (fun c held => ?_)
    simp only at held
    split at held
    · cases Option.some.inj held
      exact .inl (Nat.le_refl _)
    · exact .inr ⟨y,before,held⟩
  | dispatchScheduled => exact .inl (dispatchOneSidecar found)
  | dispatch => exact .inl (performScheduled s _ ▸ found)
  | @settle w reply j v busy settled => cases v <;> exact .inl found
  | work => exact .inl (performScheduled s _ ▸ found)
  | _ => exact .inl found

theorem clockedStep (s : State) (a : Action) (t : State) (clocked : Clocked s) (taken : step s a = some t) : Clocked t := by
  have later := nowStep taken
  refine ⟨fun n x => rowsStep clocked taken,fun o r c => outboxStep clocked taken,fun m ready mem => ?_,
    fun n expiry held => ?_,fun n x c found held => ?_,tablesStep taken clocked.tables⟩
  · rcases waitFrom taken mem with before | ⟨tier,rfl⟩
    · exact Nat.le_trans (clocked.wait m ready before) (Nat.add_le_add_right later _)
    · exact Nat.add_le_add later (ttlLongest tier)
  · rcases locksStep taken held with before | rfl
    · exact Nat.le_trans (clocked.locks n expiry before) (Nat.add_le_add_right later _)
    · exact Nat.add_le_add_right later _
  · rcases sidecarStep taken found with before | claims
    · exact Nat.le_trans (clocked.scheduled n x c before held) later
    · rcases claims c held with past | ⟨y,before,same⟩
      · exact Nat.le_trans past later
      · exact Nat.le_trans (clocked.scheduled n y c before same) later

theorem clockedInitial : Clocked initial where
  rows := fun n x found => by cases found
  outbox := fun o r c stored => by cases stored
  wait := fun m ready mem => by cases mem
  locks := fun n expiry held => by cases held
  scheduled := fun n x c found => by cases found
  tables := ⟨fun id row held => (by cases held.1),fun id x found => (by cases found)⟩

theorem reachableClocked {s : State} (reachable : Reachable s) : Clocked s :=
  have ⟨_,ok⟩ := reachable
  Runs.invariant clockedStep clockedInitial ok

end Notifyd.Clocks
