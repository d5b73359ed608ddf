import Notifyd.Scheduling

/-! A scheduled notification is released at most once, not before it is due and not after a cancel. Two
schedulers may work on one row at a time, since a claim runs out after 60 seconds; the UPDATE under the
row lock lets only one of them through, and no statement makes a row scheduled again. -/
namespace Notifyd.ScheduledRelease
open Domain Store Calls Runs Scheduling

def IsScheduled (db : Db) (id : NotificationId) (row : Row) : Prop :=
  db.notifications[id]? = some row ∧ row.val.status = .scheduled

def Left (db : Db) (id : NotificationId) : Prop :=
  id < db.notifications.length ∧ ∀ row, ¬ IsScheduled db id row

structure Follows (db db' : Db) : Prop where
  length : db.notifications.length ≤ db'.notifications.length
  due : ∀ id x, id < db.notifications.length → db'.scheduled id = some x →
    ∃ y, db.scheduled id = some y ∧ y.dueAt = x.dueAt
  rows : ∀ id row, id < db.notifications.length → IsScheduled db' id row → IsScheduled db id row

structure TablesOk (db : Db) : Prop where
  sidecar : ∀ id row, IsScheduled db id row → ∃ x, db.scheduled id = some x ∧ row.val.scheduledAt = some x.dueAt
  known : ∀ id x, db.scheduled id = some x → id < db.notifications.length

/- From its UPDATE on a transaction holds the row, and the version it wrote is that of the committed row. -/
def Holds (s : State) (p : ProcessId) (tx : Tx) (notif : Notification) (version : Row) : Prop :=
  s.locks (.notification tx.id) = some p ∧ ∃ row, IsScheduled s.db tx.id row ∧ notif = row.val ∧
    version = RowStmt.markScheduledPending.onRow tx.startedAt row

def PcOk (s : State) (p : ProcessId) (tx : Tx) : Pc → Prop
  | .begun => True
  | .selected n => ∀ row, IsScheduled s.db tx.id row → n = row.val
  | .marked n version | .inserted n version | .deleted n version => Holds s p tx n version
  | .lost | .lostDeleted => Left s.db tx.id

structure TxOk (s : State) (p : ProcessId) (tx : Tx) : Prop where
  started : tx.startedAt ≤ s.now
  inside : tx.id < s.db.notifications.length
  due : ∀ x, s.db.scheduled tx.id = some x → x.dueAt ≤ tx.startedAt
  pc : PcOk s p tx tx.pc

structure Inv (s : State) : Prop where
  tables : TablesOk s.db
  queued : ∀ p id, id ∈ s.queues p → id < s.db.notifications.length ∧
    ∀ x, s.db.scheduled id = some x → x.dueAt ≤ s.now
  txs : ∀ p tx, s.txs p = some tx → TxOk s p tx
  logged : ∀ e ∈ s.log, Left s.db e.id
  first : s.log.Pairwise (fun later earlier => ∀ id, later = .released id → earlier.id ≠ id)

theorem leftFollows {db db' : Db} {id : NotificationId} (left : Left db id) (follows : Follows db db') : Left db' id :=
  ⟨Nat.lt_of_lt_of_le left.1 follows.length,fun row now_ => left.2 row (follows.rows id row left.1 now_)⟩

theorem followsRefl (db : Db) : Follows db db := ⟨Nat.le_refl _,fun _ x _ found => ⟨x,found,rfl⟩,fun _ _ _ held => held⟩

def Spared (s s' : State) (p : ProcessId) : Prop :=
  ∀ id, id < s.db.notifications.length → s.locks (.notification id) = some p →
    s'.locks (.notification id) = some p ∧ s'.db.notifications[id]? = s.db.notifications[id]?

theorem txKept {s s' : State} {p : ProcessId} {tx : Tx} (ok : TxOk s p tx) (clock : s.now ≤ s'.now)
    (follows : Follows s.db s'.db) (spared : Spared s s' p) : TxOk s' p tx := by
  have holds : ∀ n version, Holds s p tx n version → Holds s' p tx n version := by
    rintro n version ⟨lock,row,held,rest⟩
    obtain ⟨still,same⟩ := spared tx.id ok.inside lock
    exact ⟨still,row,⟨same.trans held.1,held.2⟩,rest⟩
  refine ⟨Nat.le_trans ok.started clock,Nat.lt_of_lt_of_le ok.inside follows.length,fun x found => ?_,?_⟩
  · obtain ⟨y,before,same⟩ := follows.due tx.id x ok.inside found
    rw [← same]
    exact ok.due y before
  · have pc := ok.pc
    cases at_ : tx.pc with
    | begun => trivial
    | selected n =>
      rw [at_] at pc
      exact fun row now_ => pc row (follows.rows tx.id row ok.inside now_)
    | marked n version =>
      rw [at_] at pc
      exact holds n version pc
    | inserted n version =>
      rw [at_] at pc
      exact holds n version pc
    | deleted n version =>
      rw [at_] at pc
      exact holds n version pc
    | lost =>
      rw [at_] at pc
      exact leftFollows pc follows
    | lostDeleted =>
      rw [at_] at pc
      exact leftFollows pc follows

theorem invNext {s s' : State} (inv : Inv s) (clock : s.now ≤ s'.now) (follows : Follows s.db s'.db)
    (tables : TablesOk s'.db)
    (queued : ∀ p id, id ∈ s'.queues p → id ∈ s.queues p ∨
      id < s'.db.notifications.length ∧ ∀ x, s'.db.scheduled id = some x → x.dueAt ≤ s'.now)
    (txs : ∀ p tx, s'.txs p = some tx → TxOk s' p tx)
    (log : s'.log = s.log ∨ ∃ e, s'.log = e::s.log ∧ Left s'.db e.id ∧ ∀ id, e = .released id → ¬ Left s.db id) :
    Inv s' := by
  have logged : ∀ e ∈ s.log, Left s'.db e.id := fun e mem => leftFollows (inv.logged e mem) follows
  refine ⟨tables,fun p id mem => ?_,txs,?_,?_⟩
  · rcases queued p id mem with before | new
    · obtain ⟨inside,due⟩ := inv.queued p id before
      refine ⟨Nat.lt_of_lt_of_le inside follows.length,fun x found => ?_⟩
      obtain ⟨y,old,same⟩ := follows.due id x inside found
      rw [← same]
      exact Nat.le_trans (due y old) clock
    · exact new
  · intro e mem
    rcases log with same | ⟨e',more,left,_⟩
    · exact logged e (same ▸ mem)
    · rw [more] at mem
      rcases List.mem_cons.mp mem with rfl | before
      · exact left
      · exact logged e before
  · rcases log with same | ⟨e',more,_,new⟩
    · rw [same]
      exact inv.first
    · rw [more]
      refine List.pairwise_cons.mpr ⟨fun e mem id released same => ?_,inv.first⟩
      have gone := inv.logged e mem
      rw [same] at gone
      exact new id released gone

theorem invTick {s : State} {ms : Nat} (inv : Inv s) : Inv {s with now := s.now + ms} := by
  refine invNext inv (Nat.le_add_right _ _) (followsRefl _) inv.tables (fun _ _ mem => .inl mem) (fun p tx found => ?_)
    (.inl rfl)
  exact txKept (inv.txs p tx found) (Nat.le_add_right _ _) (followsRefl _) (fun _ _ lock => ⟨lock,rfl⟩)

theorem invTables {s : State} {db : Db} (inv : Inv s) (follows : Follows s.db db) (tables : TablesOk db)
    (spared : ∀ id p, id < s.db.notifications.length → s.locks (.notification id) = some p →
      db.notifications[id]? = s.db.notifications[id]?)
    {log : List Event} (logged : log = s.log ∨ ∃ e, log = e::s.log ∧ Left db e.id ∧ ∀ id, e = .released id → ¬ Left s.db id) :
    Inv {s with db := db, log := log} := by
  refine invNext inv (Nat.le_refl _) follows tables (fun _ _ mem => .inl mem) (fun p tx found => ?_) logged
  exact txKept (inv.txs p tx found) (Nat.le_refl _) follows (fun id inside lock => ⟨lock,spared id p inside lock⟩)

structure Adds (db db' : Db) : Prop where
  old : ∀ id, id < db.notifications.length → db'.notifications[id]? = db.notifications[id]? ∧
    db'.scheduled id = db.scheduled id
  length : db.notifications.length ≤ db'.notifications.length
  fresh : ∀ id row, db.notifications.length ≤ id → IsScheduled db' id row →
    ∃ x, db'.scheduled id = some x ∧ row.val.scheduledAt = some x.dueAt
  known : ∀ id x, db'.scheduled id = some x → db.scheduled id = some x ∨ id < db'.notifications.length

theorem addsPending {db db' : Db} {rows : List Row} (added : db'.notifications = db.notifications ++ rows)
    (same : db'.scheduled = db.scheduled) (pending : ∀ row ∈ rows, row.val.status ≠ .scheduled) : Adds db db' := by
  refine ⟨fun id inside => ?_,by rw [added]; simp,fun id row outside held => ?_,
    fun id x found => .inl (by rw [← same]; exact found)⟩
  · rw [added,List.getElem?_append_left inside,same]
    exact ⟨rfl,rfl⟩
  · obtain ⟨stored,scheduled⟩ := held
    rw [added,List.getElem?_append_right outside] at stored
    exact absurd scheduled (pending row (List.mem_of_getElem? stored))

theorem persistAdds {now caller key version req db db'} (ok : Create.persist now caller key version req db = some db') :
    Adds db db' := by
  obtain ⟨_,_,checks,added⟩ := Create.persistRows ok
  simp only [Create.persist,bind,Option.bind_eq_some_iff] at ok
  obtain ⟨mid,inserted,last⟩ := ok
  obtain ⟨_,stored,_⟩ := insertedNotification inserted
  cases due : Create.scheduleOf now req with
  | none =>
    simp only [due] at last
    cases Option.some.inj last
    refine addsPending added (by rw [stored]; rfl) (fun row mem => ?_)
    rw [List.mem_singleton.mp mem]
    simp [InsertParams.row,Create.persistParams,due]
  | some t =>
    simp only [due] at last
    cases Option.some.inj last
    have table : ∀ id, (mid.insertScheduled db.notifications.length t).scheduled id =
        if id = db.notifications.length then some ⟨t,none⟩ else db.scheduled id := by
      intro id
      rw [stored]
      simp only [Db.insertScheduled,Function.update_apply]
    refine ⟨fun id inside => ?_,by rw [added]; simp,fun id row outside held => ?_,fun id x found => ?_⟩
    · rw [added,List.getElem?_append_left inside,table,if_neg (Nat.ne_of_lt inside)]
      exact ⟨rfl,rfl⟩
    · have last : id = db.notifications.length := by
        have stops := (List.getElem?_eq_some_iff.mp held.1).1
        rw [added,List.length_append,List.length_singleton] at stops
        omega
      have stored := held.1
      rw [added,last,List.getElem?_append_right (Nat.le_refl _),Nat.sub_self] at stored
      cases Option.some.inj stored
      exact ⟨⟨t,none⟩,by rw [table,if_pos last],by simp [InsertParams.row,Create.persistParams,due]⟩
    · rw [table] at found
      split at found
      · rename_i last
        exact .inr (by rw [added,last]; simp)
      · exact .inl found

theorem batchItemsScheduled {now batchId caller items db db'}
    (ok : Create.insertBatchItems now batchId caller items db = some db') : db'.scheduled = db.scheduled := by
  induction items generalizing db with
  | nil =>
    cases Option.some.inj ok
    rfl
  | cons req rest ih =>
    simp only [Create.insertBatchItems,Create.insertBatchItem,bind,Option.bind_eq_some_iff] at ok
    obtain ⟨mid,⟨first,inserted,last⟩,later⟩ := ok
    cases Option.some.inj last
    obtain ⟨_,same,_⟩ := insertedNotification inserted
    rw [ih later,same]
    rfl

theorem persistBatchAdds {now caller b items db db'} (ok : Create.persistBatch now caller b items db = some db') :
    Adds db db' := by
  obtain ⟨_,_,rows,added,vals⟩ := Create.batchItemsRows ok
  have grown : db'.notifications = db.notifications ++ rows := added
  have same : db'.scheduled = (Create.insertBatch b db).scheduled := batchItemsScheduled ok
  refine addsPending grown same (fun row mem => ?_)
  have item : row.val ∈ rows.map Subtype.val := List.mem_map_of_mem mem
  rw [vals] at item
  obtain ⟨req,_,same⟩ := List.mem_map.mp item
  rw [← same]
  simp [InsertParams.row,Create.batchItemParams]

theorem invCreated {s : State} {db : Db} (inv : Inv s) (adds : Adds s.db db) : Inv {s with db := db} := by
  have rows : ∀ id row, id < s.db.notifications.length → IsScheduled db id row → IsScheduled s.db id row := by
    intro id row inside held
    exact ⟨(adds.old id inside).1 ▸ held.1,held.2⟩
  have follows : Follows s.db db := by
    refine ⟨adds.length,fun id x inside found => ?_,rows⟩
    rw [(adds.old id inside).2] at found
    exact ⟨x,found,rfl⟩
  refine invTables inv follows ⟨fun id row held => ?_,fun id x found => ?_⟩ 
    (fun id _ inside _ => (adds.old id inside).1) (.inl rfl)
  · by_cases inside : id < s.db.notifications.length
    · rw [(adds.old id inside).2]
      exact inv.tables.sidecar id row (rows id row inside held)
    · exact adds.fresh id row (Nat.le_of_not_lt inside) held
  · rcases adds.known id x found with before | inside
    · exact Nat.lt_of_lt_of_le (inv.tables.known id x before) adds.length
    · exact inside

theorem scheduledUntouched {time : Nat} {st : RowStmt} {row : Row}
    (after : (st.onRow time row).val.status = .scheduled) : st.onRow time row = row := by
  unfold RowStmt.onRow at after ⊢
  split
  · rename_i hit
    rw [dif_pos hit] at after
    cases st <;> cases after
  · rfl

theorem updated {db : Db} {time : Nat} {st : RowStmt} {id j : NotificationId} :
    (db.update time st id).notifications[j]? =
      if j = id then (db.notifications[j]?).map (st.onRow time) else db.notifications[j]? := by
  simp only [Db.update,List.getElem?_modify]
  by_cases same : j = id
  · subst same
    cases db.notifications[j]? <;> simp
  · have other : ¬ id = j := fun h => same h.symm
    simp [same,other]

theorem updateRows {db : Db} {time : Nat} {st : RowStmt} {id j : NotificationId} {row : Row}
    (held : IsScheduled (db.update time st id) j row) : IsScheduled db j row := by
  obtain ⟨stored,scheduled⟩ := held
  rw [updated] at stored
  split at stored
  · obtain ⟨before,found,rfl⟩ := Option.map_eq_some_iff.mp stored
    have untouched := scheduledUntouched scheduled
    rw [untouched] at scheduled ⊢
    exact ⟨found,scheduled⟩
  · exact ⟨stored,scheduled⟩

theorem updateLength {db : Db} {time : Nat} {st : RowStmt} {id : NotificationId} :
    (db.update time st id).notifications.length = db.notifications.length := List.length_modify ..

theorem updateFollows (db : Db) (time : Nat) (st : RowStmt) (id : NotificationId) : Follows db (db.update time st id) :=
  ⟨Nat.le_of_eq updateLength.symm,fun _ x _ found => ⟨x,found,rfl⟩,fun _ _ _ held => updateRows held⟩

theorem updateTables {db : Db} (tables : TablesOk db) (time : Nat) (st : RowStmt) (id : NotificationId) :
    TablesOk (db.update time st id) :=
  ⟨fun j row held => tables.sidecar j row (updateRows held),fun j x found => by
    rw [updateLength]
    exact tables.known j x found⟩

theorem updateSpares {s : State} {time : Nat} {st : RowStmt} {id : NotificationId}
    (unlocked : ∀ n, s.db.row id = some n → st.guard time n = true → s.locks (.notification id) = none) :
    ∀ j p, j < s.db.notifications.length → s.locks (.notification j) = some p →
      (s.db.update time st id).notifications[j]? = s.db.notifications[j]? := by
  intro j p inside lock
  rw [updated]
  split
  · rename_i same
    subst same
    cases stored : s.db.notifications[j]? with
    | none => rfl
    | some row =>
      cases hit : st.guard time row.val with
      | true =>
        have clear := unlocked row.val (by simp [Db.row,stored]) hit
        rw [clear] at lock
        cases lock
      | false =>
        have miss : st.onRow time row = row := Subtype.ext (by rw [onRowVal,nextMiss hit])
        rw [Option.map_some,miss]
  · rfl

theorem invStatement {s : State} {time : Nat} {st : RowStmt} {id : NotificationId} (inv : Inv s)
    (unlocked : ∀ n, s.db.row id = some n → st.guard time n = true → s.locks (.notification id) = none) :
    Inv {s with db := s.db.update time st id} :=
  invTables inv (updateFollows s.db time st id) (updateTables inv.tables time st id) (updateSpares unlocked) (.inl rfl)

theorem invCancelled {s : State} {id : NotificationId} {scope : Option Uuid} {n : Notification} (inv : Inv s)
    (row : s.db.row id = some n) (hit : (Delivery.cancelStmt scope).guard s.now n = true)
    (unlocked : s.locks (.notification id) = none) :
    Inv {s with db := s.db.update s.now (Delivery.cancelStmt scope) id, log := .cancelled id :: s.log} := by
  obtain ⟨stored,found,rfl⟩ := Option.map_eq_some_iff.mp row
  have kind : ∀ e, Delivery.cancelStmt scope ≠ .markDeadLetter e := by
    intro e
    cases scope <;> exact nofun
  have inside : id < (s.db.update s.now (Delivery.cancelStmt scope) id).notifications.length := by
    rw [updateLength]
    exact (List.getElem?_eq_some_iff.mp found).1
  have left : Left (s.db.update s.now (Delivery.cancelStmt scope) id) id := by
    refine ⟨inside,fun after held => ?_⟩
    obtain ⟨same,scheduled⟩ := held
    rw [updated,if_pos rfl,found,Option.map_some] at same
    cases Option.some.inj same
    rw [onRowVal,nextHit stored.property hit (fun _ => kind)] at scheduled
    cases scope <;> cases scheduled
  exact invTables inv (updateFollows ..) (updateTables inv.tables ..) (updateSpares (fun _ _ _ => unlocked))
    (.inr ⟨_,rfl,left,nofun⟩)

theorem stampSome {now : Nat} {p : ProcessId} {rows : List NotificationId} {db : Db} {id : NotificationId} {x : Scheduled}
    (found : (stampClaims now p rows db).scheduled id = some x) : ∃ y, db.scheduled id = some y ∧ y.dueAt = x.dueAt := by
  obtain ⟨y,before,rfl⟩ := Option.map_eq_some_iff.mp found
  refine ⟨y,before,?_⟩
  simp only
  split <;> rfl

theorem stampFollows (now : Nat) (p : ProcessId) (rows : List NotificationId) (db : Db) :
    Follows db (stampClaims now p rows db) :=
  ⟨Nat.le_refl _,fun _ _ _ found => stampSome found,fun _ _ _ held => held⟩

theorem stampTables {db : Db} (tables : TablesOk db) (now : Nat) (p : ProcessId) (rows : List NotificationId) :
    TablesOk (stampClaims now p rows db) := by
  refine ⟨fun id row held => ?_,fun id x found => ?_⟩
  · obtain ⟨x,found,due⟩ := tables.sidecar id row held
    refine ⟨_,Option.map_eq_some_iff.mpr ⟨x,found,rfl⟩,?_⟩
    simp only
    split <;> exact due
  · obtain ⟨y,before,_⟩ := stampSome found
    exact tables.known id y before

theorem invStamped {s : State} {p : ProcessId} {rows : List NotificationId} (inv : Inv s) :
    Inv {s with db := stampClaims s.now p rows s.db} :=
  invTables inv (stampFollows ..) (stampTables inv.tables ..) (fun _ _ _ _ => rfl) (.inl rfl)

theorem invQueues {s : State} {queues : ProcessId → List NotificationId} (inv : Inv s)
    (queued : ∀ p id, id ∈ queues p → id ∈ s.queues p ∨
      id < s.db.notifications.length ∧ ∀ x, s.db.scheduled id = some x → x.dueAt ≤ s.now) :
    Inv {s with queues := queues} := by
  refine invNext inv (Nat.le_refl _) (followsRefl _) inv.tables queued (fun p tx found => ?_) (.inl rfl)
  exact txKept (inv.txs p tx found) (Nat.le_refl _) (followsRefl _) (fun _ _ lock => ⟨lock,rfl⟩)

theorem invClaimed {s : State} {p : ProcessId} {rows : List NotificationId} (inv : Inv s)
    (claimable : s.claimable rows = true) :
    Inv {s with db := stampClaims s.now p rows s.db, queues := Function.update s.queues p rows} := by
  refine invQueues (invStamped inv) (fun q id mem => ?_)
  by_cases same : q = p
  · subst same
    rw [Function.update_self] at mem
    have ready := List.all_eq_true.mp claimable id mem
    simp only [Bool.and_eq_true,decide_eq_true_eq] at ready
    refine .inr ⟨ready.1.1,fun x found => ?_⟩
    obtain ⟨y,before,due⟩ := stampSome found
    have late := ready.2
    simp only [before,Option.any_some,Scheduled.due,Bool.and_eq_true,decide_eq_true_eq] at late
    rw [← due]
    exact late.1
  · rw [Function.update_of_ne same] at mem
    exact .inl mem

theorem invShorter {s : State} {p : ProcessId} {id : NotificationId} {rest : List NotificationId} (inv : Inv s)
    (queue : s.queues p = id::rest) : Inv {s with queues := Function.update s.queues p rest} := by
  refine invQueues inv (fun q j mem => .inl ?_)
  by_cases same : q = p
  · subst same
    rw [Function.update_self] at mem
    rw [queue]
    exact List.mem_cons_of_mem id mem
  · rw [Function.update_of_ne same] at mem
    exact mem

theorem invPut {s s' : State} {p : ProcessId} {tx : Tx} (inv : Inv s) (now_ : s'.now = s.now) (db : s'.db = s.db)
    (queues : s'.queues = s.queues) (log : s'.log = s.log) (txs : s'.txs = Function.update s.txs p (some tx))
    (locks : ∀ l q, q ≠ p → s.locks l = some q → s'.locks l = some q) (ok : TxOk s' p tx) : Inv s' := by
  refine invNext inv (Nat.le_of_eq now_.symm) (db ▸ followsRefl _) (db ▸ inv.tables) (fun q id mem => .inl (queues ▸ mem)) ?_
    (.inl log)
  intro q other found
  rw [txs] at found
  rcases updateSome found with ⟨rfl,rfl⟩ | ⟨different,before⟩
  · exact ok
  · exact txKept (inv.txs q other before) (Nat.le_of_eq now_.symm) (db ▸ followsRefl _)
      (fun id _ lock => ⟨locks _ q different lock,by rw [db]⟩)

theorem invFinish {s : State} {p : ProcessId} (inv : Inv s) : Inv (s.finish p) := by
  refine invNext inv (Nat.le_refl _) (followsRefl _) inv.tables (fun _ _ mem => .inl mem) (fun q tx found => ?_) (.inl rfl)
  have later : Function.update s.txs p none q = some tx := found
  by_cases same : q = p
  · subst same
    rw [Function.update_self] at later
    cases later
  · rw [Function.update_of_ne same] at later
    refine txKept (inv.txs q tx later) (Nat.le_refl _) (followsRefl _) (fun id _ lock => ⟨?_,rfl⟩)
    simp only [State.finish,lock,Option.some.injEq,if_neg same]

theorem invBegun {s : State} {p : ProcessId} {id : NotificationId} {rest : List NotificationId} (inv : Inv s)
    (queue : s.queues p = id::rest) :
    Inv (State.put {s with queues := Function.update s.queues p rest} p ⟨id,s.now,.begun⟩) := by
  obtain ⟨inside,due⟩ := inv.queued p id (by rw [queue]; exact List.mem_cons_self ..)
  exact invPut (invShorter inv queue) rfl rfl rfl rfl rfl (fun _ _ _ lock => lock)
    ⟨Nat.le_refl _,inside,due,trivial⟩

theorem takeLocks {s : State} {p : ProcessId} {l : Lock} (free : s.free l p = true) :
    ∀ l' q, q ≠ p → s.locks l' = some q → (s.take l p).locks l' = some q := by
  intro l' q different lock
  by_cases same : l' = l
  · subst same
    simp only [State.free,lock,Option.all_some,beq_iff_eq] at free
    exact absurd free different
  · exact (Function.update_of_ne same ..).trans lock

theorem deletingLocks {s : State} {p : ProcessId} {id : NotificationId} (free : s.free (.scheduled id) p = true) :
    ∀ l q, q ≠ p → s.locks l = some q → (s.deleting id p).locks l = some q := by
  unfold State.deleting
  split
  · exact takeLocks free
  · exact fun _ _ _ lock => lock

theorem deletingKeeps {s : State} {p : ProcessId} {id : NotificationId} {tx : Tx} (ok : TxOk s p tx) :
    TxOk (s.deleting id p) p tx := by
  unfold State.deleting
  split
  · refine txKept ok (Nat.le_refl _) (followsRefl _) (fun j _ lock => ⟨?_,rfl⟩)
    have other : Lock.notification j ≠ .scheduled id := by simp
    exact (Function.update_of_ne other (some p) s.locks).trans lock
  · exact ok

theorem deletingParts (s : State) (id : NotificationId) (p : ProcessId) : (s.deleting id p).now = s.now ∧
    (s.deleting id p).db = s.db ∧ (s.deleting id p).queues = s.queues ∧ (s.deleting id p).log = s.log ∧
    (s.deleting id p).txs = s.txs := by
  unfold State.deleting
  split <;> exact ⟨rfl,rfl,rfl,rfl,rfl⟩

theorem invDeleting {s : State} {p : ProcessId} {tx : Tx} {pc : Pc} (inv : Inv s) (ok : TxOk s p tx)
    (free : s.free (.scheduled tx.id) p = true) (next : PcOk s p {tx with pc := pc} pc) :
    Inv ((s.deleting tx.id p).put p {tx with pc := pc}) := by
  obtain ⟨now_,db,queues,log,txs⟩ := deletingParts s tx.id p
  have moved : TxOk s p {tx with pc := pc} := ⟨ok.started,ok.inside,ok.due,next⟩
  have kept : TxOk (s.deleting tx.id p) p {tx with pc := pc} := deletingKeeps moved
  refine invPut inv now_ db queues log (by rw [State.put,txs]) (deletingLocks free) ?_
  exact txKept kept (Nat.le_refl _) (followsRefl _) (fun _ _ lock => ⟨lock,rfl⟩)

theorem invExecute {s t : State} {p : ProcessId} {tx : Tx} (inv : Inv s) (found : s.txs p = some tx)
    (moved : execute s p tx = some t) : Inv t := by
  have ok := inv.txs p tx found
  have pc := ok.pc
  -- every statement but the two DELETEs keeps the state apart from the transaction and its own lock
  have put : ∀ next, PcOk s p {tx with pc := next} next → Inv (s.put p {tx with pc := next}) := by
    intro next after
    have moved : TxOk s p {tx with pc := next} := ⟨ok.started,ok.inside,ok.due,after⟩
    exact invPut inv rfl rfl rfl rfl rfl (fun _ _ _ lock => lock)
      (txKept moved (Nat.le_refl _) (followsRefl _) (fun _ _ lock => ⟨lock,rfl⟩))
  unfold execute at moved
  split at moved
  · split at moved
    · rename_i n row
      cases Option.some.inj moved
      refine put _ (fun stored held => ?_)
      have here : s.db.notifications[tx.id]? = some stored := held.1
      rw [Db.row,here,Option.map_some] at row
      exact (Option.some.inj row).symm
    · cases Option.some.inj moved
      exact invFinish inv
  · rename_i n at_
    rw [at_] at pc
    have gone : ∀ row, s.db.notifications[tx.id]? = some row → row.val.status ≠ .scheduled → Left s.db tx.id := by
      intro row stored other
      refine ⟨ok.inside,fun row' held => other ?_⟩
      cases Option.some.inj (stored.symm.trans held.1)
      exact held.2
    split at moved
    · rename_i row stored
      split at moved
      · rename_i hit
        split at moved <;> try contradiction
        rename_i free
        cases Option.some.inj moved
        have held : IsScheduled s.db tx.id row := ⟨stored,by simpa [RowStmt.guard] using hit⟩
        exact invPut inv rfl rfl rfl rfl rfl (takeLocks free) ⟨ok.started,ok.inside,ok.due,
          Function.update_self ..,row,held,pc row held,rfl⟩
      · rename_i miss
        cases Option.some.inj moved
        exact put _ (gone row stored (by simpa [RowStmt.guard] using miss))
    · rename_i absent
      cases Option.some.inj moved
      exact put _ ⟨ok.inside,fun row held => by cases absent.symm.trans held.1⟩
  · rename_i n version at_
    rw [at_] at pc
    cases Option.some.inj moved
    exact put _ pc
  · rename_i n version at_
    rw [at_] at pc
    split at moved <;> try contradiction
    rename_i free
    cases Option.some.inj moved
    exact invDeleting inv ok free pc
  · rename_i at_
    rw [at_] at pc
    split at moved <;> try contradiction
    rename_i free
    cases Option.some.inj moved
    exact invDeleting inv ok free pc
  · contradiction
  · contradiction

theorem deleteFollows (db : Db) (id : NotificationId) : Follows db (db.deleteScheduled id) := by
  refine ⟨Nat.le_refl _,fun j x _ found => ?_,fun _ _ _ held => held⟩
  simp only [Db.deleteScheduled,Function.update_apply] at found
  split at found
  · cases found
  · exact ⟨x,found,rfl⟩

theorem deleteTables {db : Db} {id : NotificationId} (left : ∀ row, ¬ IsScheduled db id row)
    (others : ∀ j row, j ≠ id → IsScheduled db j row → ∃ x, db.scheduled j = some x ∧ row.val.scheduledAt = some x.dueAt)
    (known : ∀ j x, db.scheduled j = some x → j < db.notifications.length) : TablesOk (db.deleteScheduled id) := by
  refine ⟨fun j row held => ?_,fun j x found => ?_⟩
  · by_cases same : j = id
    · subst same
      exact absurd held (left row)
    · simp only [Db.deleteScheduled,Function.update_of_ne same]
      exact others j row same held
  · simp only [Db.deleteScheduled,Function.update_apply] at found
    split at found
    · cases found
    · exact known j x found

theorem invGaveUp {s : State} {p : ProcessId} {tx : Tx} (inv : Inv s) (found : s.txs p = some tx)
    (at_ : tx.pc = .lostDeleted) : Inv (State.finish {s with db := s.db.deleteScheduled tx.id} p) := by
  have left := (inv.txs p tx found).pc
  rw [at_] at left
  refine invFinish (invTables inv (deleteFollows s.db tx.id) ?_ (fun _ _ _ _ => rfl) (.inl rfl))
  exact deleteTables left.2 (fun j row _ held => inv.tables.sidecar j row held) inv.tables.known

theorem installUpdates {s : State} {p : ProcessId} {tx : Tx} {n : Notification} {version : Row}
    (holds : Holds s p tx n version) : install tx n version s.db =
      (Db.insertOutbox (Delivery.rowOutbox tx.startedAt tx.id n)
        (s.db.update tx.startedAt .markScheduledPending tx.id)).deleteScheduled tx.id := by
  obtain ⟨_,row,⟨stored,_⟩,_,rfl⟩ := holds
  have same : s.db.notifications.set tx.id (RowStmt.markScheduledPending.onRow tx.startedAt row) =
      s.db.notifications.modify tx.id (RowStmt.markScheduledPending.onRow tx.startedAt) := by
    rw [List.modify_eq_set_getElem?,stored]
    rfl
  unfold install Db.update
  rw [same]

theorem releasedRow {s : State} {p : ProcessId} {tx : Tx} {n : Notification} {version : Row}
    (holds : Holds s p tx n version) : s.db.row tx.id = some n ∧ n.status = .scheduled ∧
      (install tx n version s.db).row tx.id = some (RowStmt.markScheduledPending.set tx.startedAt n) := by
  have installed := installUpdates holds
  obtain ⟨_,row,⟨stored,scheduled⟩,rfl,_⟩ := holds
  have before : s.db.row tx.id = some row.val := by rw [Db.row,stored]; rfl
  refine ⟨before,scheduled,?_⟩
  rw [installed]
  have hit : RowStmt.markScheduledPending.guard tx.startedAt row.val = true := by simp [RowStmt.guard,scheduled]
  have next := nextHit row.property hit (fun _ _ other => RowStmt.noConfusion other)
  show (s.db.update tx.startedAt .markScheduledPending tx.id).row tx.id = _
  rw [rowUpdate,if_pos rfl,before,Option.map_some,next]

theorem outboxFollows {db db' : Db} (follows : Follows db db') (rows : List OutboxRow) :
    Follows db {db' with outbox := rows} := ⟨follows.length,follows.due,follows.rows⟩

theorem outboxTables {db : Db} (tables : TablesOk db) (rows : List OutboxRow) : TablesOk {db with outbox := rows} :=
  ⟨tables.sidecar,tables.known⟩

theorem followsTrans {a b c : Db} (first : Follows a b) (second : Follows b c) : Follows a c := by
  refine ⟨Nat.le_trans first.length second.length,fun id x inside found => ?_,fun id row inside held => ?_⟩
  · obtain ⟨y,middle,same⟩ := second.due id x (Nat.lt_of_lt_of_le inside first.length) found
    obtain ⟨z,before,equal⟩ := first.due id y inside middle
    exact ⟨z,before,equal.trans same⟩
  · exact first.rows id row inside (second.rows id row (Nat.lt_of_lt_of_le inside first.length) held)

theorem finishLocks {s : State} {p q : ProcessId} {l : Lock} (lock : (s.finish p).locks l = some q) :
    s.locks l = some q ∧ q ≠ p := by
  simp only [State.finish] at lock
  split at lock
  · cases lock
  · rename_i other
    exact ⟨lock,fun same => other (same ▸ lock)⟩

theorem invReleased {s : State} {p : ProcessId} {tx : Tx} {n : Notification} {version : Row} (inv : Inv s)
    (found : s.txs p = some tx) (at_ : tx.pc = .deleted n version) :
    Inv (State.finish {s with db := install tx n version s.db, log := .released tx.id :: s.log} p) := by
  have ok := inv.txs p tx found
  have holds := ok.pc
  rw [at_] at holds
  obtain ⟨_,_,after⟩ := releasedRow holds
  have installed := installUpdates holds
  obtain ⟨lock,row,held,_⟩ := holds
  have updates : Follows s.db (install tx n version s.db) := by
    rw [installed]
    exact followsTrans (outboxFollows (updateFollows ..) _) (deleteFollows ..)
  have gone : ∀ row, ¬ IsScheduled (install tx n version s.db) tx.id row := by
    rintro row ⟨stored,scheduled⟩
    rw [Db.row,stored] at after
    rw [Option.some.inj after] at scheduled
    cases scheduled
  have tables : TablesOk (install tx n version s.db) := by
    have middle := outboxTables (updateTables inv.tables tx.startedAt .markScheduledPending tx.id)
      (s.db.outbox ++ [Delivery.rowOutbox tx.startedAt tx.id n])
    rw [installed] at gone ⊢
    exact deleteTables gone (fun j row _ held => middle.sidecar j row held) middle.known
  have spared : ∀ id q, id < s.db.notifications.length → (s.finish p).locks (.notification id) = some q →
      (install tx n version s.db).notifications[id]? = s.db.notifications[id]? := by
    intro id q _ locked
    obtain ⟨before,different⟩ := finishLocks locked
    have other : tx.id ≠ id := by
      intro same
      rw [← same,lock] at before
      exact different (Option.some.inj before).symm
    exact List.getElem?_set_ne other
  refine invTables (invFinish inv) updates tables spared (.inr ⟨_,rfl,⟨?_,gone⟩,fun id same left => ?_⟩)
  · exact Nat.lt_of_lt_of_le ok.inside updates.length
  · cases same
    exact left.2 row held

theorem invStep (s : State) (a : Action) (t : State) (inv : Inv s) (taken : step s a = some t) : Inv t := by
  cases stepMoves taken with
  | idle => exact inv
  | tick => exact invTick inv
  | created ok => exact invCreated inv (persistAdds ok)
  | createdBatch ok => exact invCreated inv (persistBatchAdds ok)
  | cancelled row hit unlocked => exact invCancelled inv row hit unlocked
  | statement unlocked => exact invStatement inv unlocked
  | @outbox rows =>
    exact invTables inv (outboxFollows (followsRefl _) rows) (outboxTables inv.tables rows) (fun _ _ _ _ => rfl) (.inl rfl)
  | claimed claimable => exact invClaimed inv claimable
  | claimLost => exact invStamped inv
  | begun queue => exact invBegun inv queue
  | skipped queue => exact invShorter inv queue
  | executed found moved => exact invExecute inv found moved
  | released found at_ => exact invReleased inv found at_
  | gaveUp found at_ => exact invGaveUp inv found at_
  | rolledBack => exact invFinish inv
  | @crashed p =>
    refine invQueues (invFinish inv) (fun q id mem => .inl ?_)
    by_cases same : q = p
    · subst same
      rw [Function.update_self] at mem
      cases mem
    · rw [Function.update_of_ne same] at mem
      exact mem

theorem invInitial : Inv initial := by
  refine ⟨⟨fun id row held => ?_,fun id x found => ?_⟩,fun p id mem => ?_,fun p tx found => ?_,fun e mem => ?_,
    List.Pairwise.nil⟩
  · cases held.1
  · cases found
  · cases mem
  · cases found
  · cases mem

theorem releaseDispatches {s : State} {p : ProcessId} {tx : Tx} {n : Notification} {version : Row} {d : Delivery.State}
    (same : d.db = s.db) (clock : d.now = tx.startedAt) (holds : Holds s p tx n version) :
    (Delivery.dispatchOne d tx.id).db = install tx n version s.db := by
  obtain ⟨row,scheduled,_⟩ := releasedRow holds
  have hit : RowStmt.markScheduledPending.guard tx.startedAt n = true := by simp [RowStmt.guard,scheduled]
  have checks := setChecks (rowChecks row) hit (fun _ _ other => RowStmt.noConfusion other)
  rw [installUpdates holds]
  simp only [Delivery.dispatchOne,same,clock,row,RowStmt.answer,hit,checks,if_true,Delivery.State.exec]

theorem lostDispatches {s : State} {tx : Tx} {d : Delivery.State} (same : d.db = s.db) (left : Left s.db tx.id) :
    (Delivery.dispatchOne d tx.id).db = s.db.deleteScheduled tx.id := by
  cases stored : s.db.notifications[tx.id]? with
  | none => exact absurd left.1 (Nat.not_lt.mpr (List.getElem?_eq_none_iff.mp stored))
  | some row =>
    have here : s.db.row tx.id = some row.val := by rw [Db.row,stored]; rfl
    have miss : RowStmt.markScheduledPending.guard d.now row.val = false := by
      have other : row.val.status ≠ .scheduled := fun scheduled => left.2 row ⟨stored,scheduled⟩
      simpa [RowStmt.guard] using other
    simp only [Delivery.dispatchOne,same,here,RowStmt.answer,miss]
    rfl

theorem claimDueStamps {now batchSize : Nat} {p : ProcessId} {locked : List NotificationId} {db : Db} :
    (db.claimDueScheduled now Delivery.scheduleTTL batchSize p locked).1 =
      stampClaims now p (db.claimDueScheduled now Delivery.scheduleTTL batchSize p locked).2 db ∧
    ∀ id ∈ (db.claimDueScheduled now Delivery.scheduleTTL batchSize p locked).2, id < db.notifications.length ∧
      (db.scheduled id).any (Scheduled.due now Delivery.scheduleTTL) = true := by
  refine ⟨rfl,fun id mem => ?_⟩
  obtain ⟨inside,ready⟩ := List.mem_filter.mp (List.mem_of_mem_take mem)
  exact ⟨List.mem_range.mp inside,(Bool.and_eq_true_iff.mp ready).2⟩

def IsScheduler : Action → Prop
  | .claim _ _ _ | .beginTx _ _ | .execute _ | .commit _ _ | .rollback _ | .crash _ => True
  | _ => False

def Releases (s t : State) (tx : Tx) : Prop :=
  ∃ n x, s.db.row tx.id = some n ∧ n.status = .scheduled ∧ s.db.scheduled tx.id = some x ∧
    n.scheduledAt = some x.dueAt ∧ x.dueAt ≤ tx.startedAt ∧ tx.startedAt ≤ s.now ∧
    t.db.outbox = s.db.outbox ++ [Delivery.rowOutbox tx.startedAt tx.id n] ∧
    t.db.row tx.id = some (RowStmt.markScheduledPending.set tx.startedAt n) ∧ t.db.scheduled tx.id = none ∧
    t.log = .released tx.id :: s.log

theorem releasedReleases {s : State} {p : ProcessId} {tx : Tx} {n : Notification} {version : Row} (inv : Inv s)
    (found : s.txs p = some tx) (at_ : tx.pc = .deleted n version) :
    Releases s (State.finish {s with db := install tx n version s.db, log := .released tx.id :: s.log} p) tx := by
  have ok := inv.txs p tx found
  have holds := ok.pc
  rw [at_] at holds
  obtain ⟨row,scheduled,after⟩ := releasedRow holds
  obtain ⟨_,stored,held,rfl,_⟩ := holds
  obtain ⟨x,sidecar,due⟩ := inv.tables.sidecar tx.id stored held
  exact ⟨_,x,row,scheduled,sidecar,due,ok.due x sidecar,ok.started,rfl,after,Function.update_self ..,rfl⟩

theorem executeOutbox {s t : State} {p : ProcessId} {tx : Tx} (moved : execute s p tx = some t) :
    t.db = s.db ∧ t.log = s.log := by
  unfold execute at moved
  obtain ⟨_,db,_,log,_⟩ := deletingParts s tx.id p
  repeat' split at moved
  all_goals first
    | contradiction
    | (cases Option.some.inj moved; exact ⟨rfl,rfl⟩)
    | (cases Option.some.inj moved; exact ⟨db,log⟩)

theorem firstCount {log : List Event} (first : log.Pairwise (fun later earlier => ∀ id, later = .released id → earlier.id ≠ id))
    (id : NotificationId) : log.count (.released id) ≤ 1 := by
  induction log with
  | nil => simp
  | cons e rest ih =>
    obtain ⟨head,tail⟩ := List.pairwise_cons.mp first
    by_cases released : e = .released id
    · have absent : Event.released id ∉ rest := fun mem => head _ mem id released rfl
      have none := List.count_eq_zero_of_not_mem absent
      rw [released,List.count_cons_self]
      omega
    · rw [List.count_cons_of_ne released]
      exact ih tail

theorem releasedOnce {actions : List Action} {s : State} (ran : run step initial actions = some s) :
    (∀ id n, s.db.row id = some n → n.status = .scheduled →
      ∃ x, s.db.scheduled id = some x ∧ n.scheduledAt = some x.dueAt) ∧
    (∀ id, s.log.count (.released id) ≤ 1) ∧
    (∀ id later earlier, s.log = later ++ Event.cancelled id::earlier → .released id ∉ later) ∧
    ∀ a t, IsScheduler a → step s a = some t → (t.db.outbox = s.db.outbox ∧ t.log = s.log) ∨
      ∃ p o tx, a = .commit p o ∧ s.txs p = some tx ∧ Releases s t tx := by
  have inv := invariant invStep invInitial ran
  refine ⟨fun id n row scheduled => ?_,firstCount inv.first,fun id later earlier log mem => ?_,fun a t mine taken => ?_⟩
  · obtain ⟨stored,found,rfl⟩ := Option.map_eq_some_iff.mp row
    exact inv.tables.sidecar id stored ⟨found,scheduled⟩
  · have first := inv.first
    rw [log] at first
    exact (List.pairwise_append.mp first).2.2 _ mem _ (List.mem_cons_self ..) id rfl rfl
  · cases stepMoves taken with
    | idle => exact .inl ⟨rfl,rfl⟩
    | tick => cases mine
    | created _ => cases mine
    | createdBatch _ => cases mine
    | cancelled _ _ _ => cases mine
    | statement _ => cases mine
    | outbox => cases mine
    | claimed _ _ => exact .inl ⟨rfl,rfl⟩
    | claimLost => exact .inl ⟨rfl,rfl⟩
    | begun _ _ => exact .inl ⟨rfl,rfl⟩
    | skipped _ => exact .inl ⟨rfl,rfl⟩
    | executed _ moved =>
      obtain ⟨db,log⟩ := executeOutbox moved
      exact .inl ⟨by rw [db],log⟩
    | released found at_ => exact .inr ⟨_,_,_,rfl,found,releasedReleases inv found at_⟩
    | gaveUp _ _ => exact .inl ⟨rfl,rfl⟩
    | rolledBack => exact .inl ⟨rfl,rfl⟩
    | crashed => exact .inl ⟨rfl,rfl⟩

def caller : Create.Caller := ⟨none,"corr"⟩

def request : Create.Request := ⟨.sms,"+15550100","hi",none,.normal,some 1000⟩

def overtaken : List Action :=
  [Action.create caller "" none request,.create caller "" none request,.tick 1000,.claim 0 [0] .ok,.beginTx 0 .ok,.execute 0,
    .tick 60001,.claim 1 [1,0] .ok,.cancel 1 none .ok,.beginTx 1 .ok,.execute 1,.execute 1,.execute 1,.commit 1 .ok] ++
  [Action.beginTx 1 .ok,.execute 1,.execute 1,.execute 1,.execute 1,.commit 1 .lost,.execute 0,.execute 0,.commit 0 .ok]

theorem overtakenReleasesOnce : ∃ s, run step initial overtaken = some s ∧ s.log = [.released 0,.cancelled 1] ∧
    s.db.outbox.map OutboxRow.notificationId = [0] ∧ (∀ id, s.log.count (.released id) ≤ 1) ∧
    ∀ id later earlier, s.log = later ++ Event.cancelled id::earlier → .released id ∉ later := by
  have ran : (run step initial overtaken).map (fun s => (s.log,s.db.outbox.map OutboxRow.notificationId)) =
      some ([.released 0,.cancelled 1],[0]) := by decide +kernel
  obtain ⟨s,final,seen⟩ := Option.map_eq_some_iff.mp ran
  obtain ⟨log,outbox⟩ := Prod.mk.inj seen
  have once := releasedOnce final
  exact ⟨s,final,log,outbox,once.2.1,once.2.2.1⟩

end Notifyd.ScheduledRelease
