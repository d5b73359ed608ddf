import Notifyd.Reads

/-! One notification, presented twice: by `rowToResponse` when it is read by its id, and by the column list,
`scanRow` and `toResponse` of `notifications_list.go` when it is an item of the list. -/
namespace Notifyd.Presentation
open Numerals Uuids Calendar Ordered Domain Reads

/- The destinations of `rows.Scan`. The idempotency key is scanned as well, and no response shows it. -/
structure ScanRow where
  id : UUID
  batchId : Option UUID
  channel : Channel
  recipient : Text
  content : Text
  priority : Nat
  status : Status
  attemptCount : Nat
  lastError : Option Text
  scheduledAt : Option Stamp
  createdAt : Stamp
  updatedAt : Stamp
  sentAt : Option Stamp
  correlationId : Text
  templateId : Option UUID
  templateVersion : Option Nat
  deriving DecidableEq, Repr

def scan (n : Notification) : ScanRow :=
  ⟨n.id,n.batchId,n.channel,n.recipient,n.content,n.priority,n.status,n.attemptCount,n.lastError,n.scheduledAt,
    n.createdAt,n.updatedAt,n.sentAt,n.correlationId,n.templateId,n.templateVersion⟩

def ScanRow.toResponse (s : ScanRow) : NotificationResponse where
  id := s.id
  batchId := s.batchId
  channel := s.channel
  recipient := s.recipient
  content := s.content
  templateId := none
  templateVersion := none
  priority := priorityFromInt s.priority
  status := s.status
  attemptCount := s.attemptCount
  lastError := s.lastError
  scheduledAt := s.scheduledAt
  createdAt := s.createdAt
  updatedAt := s.updatedAt
  sentAt := s.sentAt
  correlationId := s.correlationId

theorem scannedResponse (n : Notification) : (scan n).toResponse = toResponse n := rfl

theorem sameDocument (n : Notification) :
    (scan n).toResponse = rowToResponse n ↔ n.templateId = none ∧ n.templateVersion = none := by
  constructor
  · intro same
    exact ⟨(congrArg NotificationResponse.templateId same).symm,(congrArg NotificationResponse.templateVersion same).symm⟩
  · rintro ⟨template,version⟩
    simp only [ScanRow.toResponse,scan,rowToResponse,template,version]

section Listed
variable {timeParse : Text → Option Int} {db : Tables} {ctx : Context} {q : ListQuery}

theorem rowsMatch {f : Filter} {limit : Nat} {n : Notification} (mem : n ∈ db.listRows f limit) :
    n ∈ db.notifications ∧ f.matches n = true := by
  have kept := (memOrder _).mp (List.mem_of_mem_take mem)
  obtain ⟨stored,both⟩ := List.mem_filter.mp kept
  exact ⟨stored,(Bool.and_eq_true_iff.mp both).1⟩

theorem pageItems {limit : Nat} {rows : List Notification} {items : List NotificationResponse} {next : Option Text}
    {more : Bool} (page : listPage limit rows = ⟨200,.notifications (some items) next more⟩)
    {item : NotificationResponse} (mem : item ∈ items) : ∃ n ∈ rows, item = (scan n).toResponse := by
  have shown : ∃ kept : List Notification, (∀ n ∈ kept, n ∈ rows) ∧ items = kept.map toResponse := by
    unfold listPage at page
    split at page
    · injection page with _ body
      injection body with listed
      exact ⟨rows.take limit,fun _ => List.mem_of_mem_take,(Option.some.inj listed).symm⟩
    · injection page with _ body
      injection body with listed
      split at listed
      · cases listed
      · exact ⟨rows,fun _ => id,(Option.some.inj listed).symm⟩
  obtain ⟨kept,returned,rfl⟩ := shown
  obtain ⟨n,inside,rfl⟩ := List.mem_map.mp mem
  exact ⟨n,returned n inside,(scannedResponse n).symm⟩

theorem getListed [Parser] {f : Filter} {n : Notification} (owner : ownerClause ctx = .ok f.owner)
    (stored : n ∈ db.notifications)
    (kept : f.matches n = true) : Reads.get db ctx (string n.id) = ⟨200,.notification (rowToResponse n)⟩ := by
  have own : f.owner.all (fun o => n.createdBy == some o) = true := (Bool.and_eq_true_iff.mp kept).1
  unfold ownerClause at owner
  unfold Reads.get
  rw [parseString]
  cases admin : ctx.key.hasScope "admin" with
  | true =>
    have found : db.getNotificationByID n.id = some n := by
      have any := findKey db.notificationIds (k := n.id) (p := fun _ => true) (a := n)
      simpa [Tables.getNotificationByID,stored] using any
    simp only [if_true,found]
  | false =>
    rw [admin] at owner
    cases key : ownerFromCtx ctx.key with
    | none => simp [key] at owner
    | some o =>
      simp only [key,Bool.false_eq_true,if_false,Except.ok.injEq] at owner
      rw [← owner,Option.all_some] at own
      have found : db.getNotificationByIDScoped n.id o = some n :=
        (findKey db.notificationIds).mpr ⟨stored,rfl,own⟩
      simp only [Bool.false_eq_true,if_false,Option.bind_some,found]

theorem requiredError {α : Type} {field message : String} {o : Option α} {r : Response}
    (failed : required ctx field message o = .error r) : r.status = 400 := by
  cases o with
  | none =>
    cases failed
    rfl
  | some a => cases failed

theorem optionalError {α : Type} {field message : String} {parse : Text → Option α} {t : Text} {r : Response}
    (failed : Reads.optional ctx field message parse t = .error r) : r.status = 400 := by
  unfold Reads.optional at failed
  split at failed
  · cases failed
  · cases checked : required ctx field message (parse t) with
    | error e =>
      rw [checked] at failed
      cases failed
      exact requiredError checked
    | ok a =>
      rw [checked] at failed
      cases failed

theorem errorBind {ε α β : Type} {x : Except ε α} {f : α → Except ε β} {e : ε} (failed : (x >>= f) = .error e) :
    x = .error e ∨ ∃ a, f a = .error e := by
  cases x with
  | error e' =>
    cases failed
    exact .inl rfl
  | ok a => exact .inr ⟨a,failed⟩

theorem listFilterError [Parser] {r : Response} (failed : listFilter timeParse ctx q = .error r) :
    r.status = 400 ∨ r = ⟨200,.notifications (some []) none false⟩ := by
  unfold listFilter at failed
  rcases errorBind failed with early | ⟨_,failed⟩
  · exact .inl (requiredError early)
  rcases errorBind failed with early | ⟨_,failed⟩
  · exact .inl (requiredError early)
  rcases errorBind failed with early | ⟨_,failed⟩
  · unfold ownerClause at early
    split at early
    · cases early
    · split at early
      · cases early
        exact .inr rfl
      · cases early
  rcases errorBind failed with early | ⟨_,failed⟩
  · exact .inl (optionalError early)
  rcases errorBind failed with early | ⟨_,failed⟩
  · exact .inl (optionalError early)
  rcases errorBind failed with early | ⟨_,failed⟩
  · exact .inl (optionalError early)
  rcases errorBind failed with early | ⟨_,failed⟩
  · exact .inl (optionalError early)
  rcases errorBind failed with early | ⟨_,failed⟩
  · exact .inl (optionalError early)
  · cases failed

theorem listedRead [Parser] {items : List NotificationResponse} {next : Option Text} {more : Bool}
    (page : list timeParse db ctx q = ⟨200,.notifications (some items) next more⟩) {item : NotificationResponse}
    (mem : item ∈ items) : ∃ n ∈ db.notifications, item = (scan n).toResponse ∧
      Reads.get db ctx (string n.id) = ⟨200,.notification (rowToResponse n)⟩ := by
  unfold list at page
  cases filter : listFilter timeParse ctx q with
  | error r =>
    rw [filter] at page
    cases page
    rcases listFilterError filter with status | empty
    · cases status
    · injection empty with _ body
      injection body with listed
      cases Option.some.inj listed
      cases mem
  | ok built =>
    rw [filter] at page
    obtain ⟨n,row,rfl⟩ := pageItems page mem
    obtain ⟨stored,kept⟩ := rowsMatch row
    have owner := ((listFilterOk timeParse).mp filter).2.2.1
    exact ⟨n,stored,rfl,getListed owner stored kept⟩

end Listed

theorem listAndGetPresent [Parser] (timeParse : Text → Option Int) :
    (∀ n : Notification, (scan n).toResponse = rowToResponse n ↔ n.templateId = none ∧ n.templateVersion = none) ∧
    ∀ (db : Tables) (ctx : Context) (q : ListQuery) (items : List NotificationResponse) (next : Option Text) (more : Bool),
      list timeParse db ctx q = ⟨200,.notifications (some items) next more⟩ →
      ∀ item ∈ items, ∃ n ∈ db.notifications, item = (scan n).toResponse ∧
        Reads.get db ctx (string n.id) = ⟨200,.notification (rowToResponse n)⟩ :=
  ⟨sameDocument,fun _ _ _ _ _ _ page _ mem => listedRead page mem⟩

def epoch : Stamp := ⟨0,by decide⟩

def templated : Notification :=
  ⟨1,none,.sms,"+905551234567".toList,"hi".toList,5,.pending,0,none,none,epoch,epoch,none,[],some 7,some 1,some 2⟩

theorem listHidesTemplate : ¬ ∀ n : Notification, (scan n).toResponse = rowToResponse n := by
  intro same
  have template := congrArg NotificationResponse.templateId (same templated)
  cases template

end Notifyd.Presentation
