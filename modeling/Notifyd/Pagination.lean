import Notifyd.Reads
import Notifyd.Keyset

/-! Following next_cursor through GET /v1/notifications. The handler is keyset pagination by
(created_at, id), newest first, except that a cursor whose timestamp is Go's zero time is taken for no
cursor at all. -/
namespace Notifyd.Pagination
open Numerals Uuids Calendar Cursors Ordered Reads Keyset

def zeroTime (k : (Nat ×ₗ Nat)ᵒᵈ) : Bool := (ofLex (OrderDual.ofDual k)).1 == 0

def matching (f : Filter) (db : Tables) : List Notification := db.notifications.filter f.matches

def follow [Parser] (timeParse : Text → Option Int) (ctx : Context) (q : ListQuery) :
    Text → List Tables → Option (List NotificationResponse)
  | _,[] => none
  | cursor,db::later => match (list timeParse db ctx {q with cursor := cursor}).body with
    | .notifications items next more =>
      if more then next.bind (fun c => (follow timeParse ctx q c later).map (fun rest => items.getD [] ++ rest))
      else some (items.getD [])
    | _ => none

def Points [Parser] (t : Text) (c : Option (Nat ×ₗ Nat)ᵒᵈ) : Prop :=
  ∃ cur, decodeCursor t = some cur ∧ ∀ (f : Filter) (n : Notification), f.cursor = cur →
    f.afterCursor n = ahead Notification.place c n

theorem pointsEmpty [Parser] : Points [] none :=
  ⟨zero,rfl,fun f n named => by simp [Filter.afterCursor,named,zero,ahead]⟩

theorem beforeIff (s : Stamp) (id : UUID) (n : Notification) : newestFirst s id < n.place ↔
    n.createdAt.micros < s.micros ∨ n.createdAt.micros = s.micros ∧ n.id < id := by
  rw [Notification.place,newestFirst,newestFirst,OrderDual.toDual_lt_toDual,Prod.Lex.toLex_lt_toLex]
  exact Iff.rfl

theorem pointsEncode [Parser] (s : Stamp) (id : UUID) : Points (encode s id) (resume zeroTime (newestFirst s id)) := by
  refine ⟨_,decodeEncode s id,fun f n named => ?_⟩
  have whole : micros ((s.micros : Int)*1000) = s.micros := by
    unfold micros
    omega
  by_cases start : s.micros = 0
  · have reset : zeroTime (newestFirst s id) = true := by simp [zeroTime,newestFirst,start]
    simp [Filter.afterCursor,named,start,resume,reset,ahead]
  · have kept : zeroTime (newestFirst s id) = false := by simp [zeroTime,newestFirst,start]
    have later : ((s.micros : Int)*1000 == 0) = false := by
      rw [beq_eq_false_iff_ne]
      omega
    rw [resumeCalm kept,Bool.eq_iff_iff]
    simp only [Filter.afterCursor,named,whole,later,Bool.false_or,Bool.or_eq_true,Bool.and_eq_true,decide_eq_true_eq,
      beq_iff_eq,ahead,Option.all_some,beforeIff,Int.ofNat_lt,Int.natCast_inj]

theorem rowsBehind (f : Filter) (db : Tables) (limit : Nat) {cur : Cursor} {c : Option (Nat ×ₗ Nat)ᵒᵈ}
    (points : ∀ (f : Filter) (n : Notification), f.cursor = cur → f.afterCursor n = ahead Notification.place c n) :
    db.listRows {f with cursor := cur} limit = (behind Notification.place c (matching f db)).take (limit + 1) := by
  rw [Tables.listRows,behind,matching,List.filter_filter]
  have same : ∀ n : Notification, (Filter.matches {f with cursor := cur} n && Filter.afterCursor {f with cursor := cur} n) =
      (ahead Notification.place c n && f.matches n) := fun n => by
    rw [points {f with cursor := cur} n rfl,Bool.and_comm]
    rfl
  simp only [same]

theorem nilItems (rows : List Notification) :
    (if rows = [] then none else some (rows.map toResponse)).getD [] = rows.map toResponse := by
  cases rows <;> rfl

section Walk
variable [Parser] {timeParse : Text → Option Int} {ctx : Context} {q : ListQuery} {limit : Nat} {f : Filter}
  (built : listFilter timeParse ctx {q with cursor := []} = .ok (limit,f))
include built

theorem limitPositive : 0 < limit := by
  obtain ⟨size,_⟩ := (listFilterOk timeParse).mp built
  unfold limitOf at size
  split at size
  · cases Option.some.inj size
    decide
  · obtain ⟨n,_,kept⟩ := Option.bind_eq_some_iff.mp size
    split at kept <;> try contradiction
    have bound := Option.some.inj kept
    unfold maxPageSize at bound
    omega

theorem listBehind (db : Tables) {t : Text} {c : Option (Nat ×ₗ Nat)ᵒᵈ} (points : Points t c) :
    list timeParse db ctx {q with cursor := t} =
      listPage limit ((behind Notification.place c (matching f db)).take (limit + 1)) := by
  obtain ⟨cur,decoded,rows⟩ := points
  have filter : listFilter timeParse ctx {q with cursor := t} = .ok (limit,{f with cursor := cur}) := by
    have parts := (listFilterOk timeParse).mp built
    exact (listFilterOk timeParse).mpr ⟨parts.1,decoded,parts.2.2⟩
  rw [list,filter]
  exact congrArg (listPage limit) (rowsBehind f db limit rows)

theorem followWalk (tables : List Tables) {t : Text} {c : Option (Nat ×ₗ Nat)ᵒᵈ} (points : Points t c) :
    follow timeParse ctx q t tables =
      (walk Notification.place zeroTime limit c (tables.map (matching f))).map (List.map toResponse) := by
  induction tables generalizing t c with
  | nil => rfl
  | cons db later ih =>
    rw [follow,listBehind built db points]
    by_cases more : limit < (behind Notification.place c (matching f db)).length
    · obtain ⟨last,rest,_,ends,_⟩ := lastOfPage (limitPositive built) more
      have page : limit < ((behind Notification.place c (matching f db)).take (limit + 1)).length := by
        rw [List.length_take]
        omega
      have items : ((behind Notification.place c (matching f db)).take (limit + 1)).take limit =
          (behind Notification.place c (matching f db)).take limit := by
        rw [List.take_take,Nat.min_eq_left (Nat.le_succ limit)]
      have next := ih (pointsEncode last.createdAt last.id)
      simp only [listPage,if_pos page,items,ends,Option.map_some,Option.bind_some,if_true,next,List.map_cons,walk,
        if_pos more,Option.getD_some]
      rw [Option.map_map,Option.map_map]
      apply congrArg (fun g => Option.map g _)
      funext tail
      simp
    · have page : ¬ limit < ((behind Notification.place c (matching f db)).take (limit + 1)).length := by
        rw [List.length_take]
        omega
      have all : (behind Notification.place c (matching f db)).take (limit + 1) =
          behind Notification.place c (matching f db) := List.take_of_length_le (by omega)
      rw [listPage,if_neg page,all]
      simp only [Bool.false_eq_true,if_false,List.map_cons,walk,if_neg more,Option.map_some,nilItems]

end Walk

def Persists (db db' : Tables) : Prop := ∀ n ∈ db.notifications, ∃ n' ∈ db'.notifications, n'.id = n.id ∧
  n'.createdAt = n.createdAt ∧ n'.channel = n.channel ∧ n'.batchId = n.batchId ∧ n'.createdBy = n.createdBy

def OneAtZero (f : Filter) (db : Tables) : Prop := ∀ a ∈ matching f db, ∀ b ∈ matching f db,
  a.createdAt.micros = 0 → b.createdAt.micros = 0 → a = b

theorem persistsTrans {x y z : Tables} (first : Persists x y) (second : Persists y z) : Persists x z := by
  intro n mem
  obtain ⟨n',mem',id,created,channel,batch,owner⟩ := first n mem
  obtain ⟨n'',mem'',id',created',channel',batch',owner'⟩ := second n' mem'
  exact ⟨n'',mem'',id'.trans id,created'.trans created,channel'.trans channel,batch'.trans batch,owner'.trans owner⟩

theorem matchesPersist {f : Filter} (immutable : f.status = none) {n n' : Notification} (created : n'.createdAt = n.createdAt)
    (channel : n'.channel = n.channel) (batch : n'.batchId = n.batchId) (owner : n'.createdBy = n.createdBy) :
    f.matches n' = f.matches n := by
  simp only [Filter.matches,immutable,created,channel,batch,owner,Option.all_none]

theorem growsOfPersists {f : Filter} (immutable : f.status = none) {db db' : Tables} (persists : Persists db db') :
    Grows Notification.place (matching f db) (matching f db') := by
  intro n mem
  obtain ⟨inside,meets⟩ := List.mem_filter.mp mem
  obtain ⟨n',there,id,created,channel,batch,owner⟩ := persists n inside
  refine ⟨n',List.mem_filter.mpr ⟨there,?_⟩,?_⟩
  · rw [matchesPersist immutable created channel batch owner]
    exact meets
  · rw [Notification.place,Notification.place,id,created]

theorem pinnedOfOne {f : Filter} {db : Tables} (one : OneAtZero f db) :
    Pinned Notification.place zeroTime (matching f db) := by
  intro a left reset b right
  have start : a.createdAt.micros = 0 := by simpa [zeroTime,Notification.place,newestFirst] using reset
  by_cases same : b.createdAt.micros = 0
  · rw [one a left b right start same]
  · apply le_of_lt
    rw [Notification.place,beforeIff,start]
    exact .inl (Nat.pos_of_ne_zero same)

theorem matchingDistinct (f : Filter) (db : Tables) : Distinct Notification.place (matching f db) :=
  placeDistinct db f.matches

def SameTimes (x y : Tables) : Prop := ∀ a ∈ x.notifications, ∀ b ∈ y.notifications, a.id = b.id → a.createdAt = b.createdAt

theorem persistsSameTimes {x y : Tables} (persists : Persists x y) : SameTimes x y := by
  intro a left b right ids
  obtain ⟨a',there,id,created,_⟩ := persists a left
  rw [← created,distinctInjective y.notificationIds there right (id.trans ids)]

theorem walkSameTimes {tables : List Tables} (persists : tables.IsChain Persists) {x y : Tables} (left : x ∈ tables)
    (right : y ∈ tables) : SameTimes x y := by
  have : IsTrans Tables Persists := ⟨fun _ _ _ => persistsTrans⟩
  have ordered : tables.Pairwise SameTimes := persists.pairwise.imp persistsSameTimes
  have : Std.Symm SameTimes := ⟨fun _ _ times a mem b there ids => (times b there a mem ids.symm).symm⟩
  have reflexive : ∀ z ∈ tables, SameTimes z z := fun z _ a mem b there ids => by
    rw [distinctInjective z.notificationIds mem there ids]
  exact ordered.forall_of_forall reflexive left right

theorem zeroSplit {rows : List Notification} (sorted : rows.Pairwise (fun a b => a.place < b.place)) :
    rows = rows.filter (fun n => n.createdAt.micros != 0) ++ rows.filter (fun n => n.createdAt.micros == 0) := by
  induction rows with
  | nil => rfl
  | cons n rest ih =>
    obtain ⟨above,later⟩ := List.pairwise_cons.mp sorted
    by_cases start : n.createdAt.micros = 0
    · have only : ∀ b ∈ rest, b.createdAt.micros = 0 := by
        intro b mem
        have order := above b mem
        rw [Notification.place,beforeIff,start] at order
        omega
      have none : rest.filter (fun n => n.createdAt.micros != 0) = [] := by
        rw [List.filter_eq_nil_iff]
        intro b mem
        simp [only b mem]
      have all : rest.filter (fun n => n.createdAt.micros == 0) = rest := by
        rw [List.filter_eq_self]
        intro b mem
        simp [only b mem]
      simp [start,none,all]
    · have inner := ih later
      simp only [List.filter_cons,bne_iff_ne,ne_eq,start,not_false_eq_true,if_true,beq_iff_eq,if_false,List.cons_append]
      rw [← inner]

def early (f : Filter) (db : Tables) : Nat := (matching f db).countP (fun n => n.createdAt.micros != 0)

def atZero (f : Filter) (db : Tables) : Nat := (matching f db).countP (fun n => n.createdAt.micros == 0)

theorem zeroFrom (f : Filter) (db : Tables) {i : Nat} {n : Notification}
    (at_ : (orderBy Notification.place (matching f db))[i]? = some n) :
    zeroTime n.place = true ↔ early f db ≤ i := by
  have split := zeroSplit (orderStrict (matchingDistinct f db))
  have length : ((orderBy Notification.place (matching f db)).filter (fun n => n.createdAt.micros != 0)).length =
      early f db := by
    rw [← List.countP_eq_length_filter]
    exact (orderPerm _ _).countP_eq _
  have own : zeroTime n.place = true ↔ n.createdAt.micros = 0 := by simp [zeroTime,Notification.place,newestFirst]
  rw [split] at at_
  rw [own]
  by_cases first : i < early f db
  · rw [List.getElem?_append_left (by omega)] at at_
    have late := (List.mem_filter.mp (List.mem_of_getElem? at_)).2
    simp only [bne_iff_ne,ne_eq] at late
    omega
  · rw [List.getElem?_append_right (by omega)] at at_
    have start := (List.mem_filter.mp (List.mem_of_getElem? at_)).2
    simp only [beq_iff_eq] at start
    omega

theorem orderLength (f : Filter) (db : Tables) :
    (orderBy Notification.place (matching f db)).length = early f db + atZero f db := by
  rw [(orderPerm _ _).length_eq,List.length_eq_countP_add_countP (fun n => n.createdAt.micros != 0)]
  simp only [early,atZero,Nat.add_left_cancel_iff]
  exact List.countP_congr (fun n _ => by simp)

theorem calmIff [Parser] (f : Filter) (db : Tables) {limit : Nat} (positive : 0 < limit) :
    Calm Notification.place zeroTime limit (matching f db) ↔
      ∀ k, ¬ (early f db < k*limit ∧ k*limit < early f db + atZero f db) := by
  rw [Calm,orderLength]
  constructor
  · rintro calm k ⟨beyond,inside⟩
    have some_ : 0 < k := Nat.pos_of_ne_zero (fun none => by simp [none] at beyond)
    have there : k*limit - 1 < (orderBy Notification.place (matching f db)).length := by
      rw [orderLength]
      omega
    have found := List.getElem?_eq_getElem there
    have reset := (zeroFrom f db found).mpr (by omega)
    rw [calm k some_ inside _ found] at reset
    contradiction
  · intro outside j some_ inside n at_
    by_contra reset
    have start := (zeroFrom f db at_).mp (by simpa using reset)
    have page : 0 < j*limit := Nat.mul_pos some_ positive
    exact outside j ⟨by omega,inside⟩

section Complete
variable [Parser] {timeParse : Text → Option Int} {ctx : Context} {q : ListQuery} {limit : Nat} {f : Filter}
  (built : listFilter timeParse ctx {q with cursor := []} = .ok (limit,f))
include built

theorem statusFree (immutable : q.status = []) : f.status = none := by
  have parts := (listFilterOk timeParse).mp built
  have status := parts.2.2.2.1
  simp only [Reads.optional,immutable,if_true] at status
  exact (Except.ok.inj status).symm

theorem followCovers (immutable : q.status = []) {tables : List Tables} (persists : tables.IsChain Persists)
    (one : ∀ db ∈ tables, OneAtZero f db) {items : List NotificationResponse}
    (done : follow timeParse ctx q [] tables = some items) :
    ∃ rows, items = rows.map toResponse ∧ Covers Notification.place none (tables.map (matching f)) rows := by
  rw [followWalk built tables pointsEmpty] at done
  obtain ⟨rows,walked,rfl⟩ := Option.map_eq_some_iff.mp done
  refine ⟨rows,rfl,walkCovers (limitPositive built) ?_ ?_ ?_ walked⟩
  · intro t mem
    obtain ⟨db,_,rfl⟩ := List.mem_map.mp mem
    exact matchingDistinct f db
  · rw [List.isChain_map]
    exact persists.imp (fun _ _ => growsOfPersists (statusFree built immutable))
  · intro t mem
    obtain ⟨db,inside,rfl⟩ := List.mem_map.mp mem
    exact pinnedOfOne (one db inside)

theorem followEnds (db : Tables) :
    (∃ fetches items, follow timeParse ctx q [] (List.replicate fetches db) = some items) ↔
      ∀ k, ¬ (early f db < k*limit ∧ k*limit < early f db + atZero f db) := by
  have positive := limitPositive built
  rw [← calmIff f db positive,← constantEnds (matchingDistinct f db) positive]
  simp only [followWalk built _ pointsEmpty,List.map_replicate,Option.map_eq_some_iff]
  constructor
  · rintro ⟨fetches,_,rows,walked,_⟩
    exact ⟨fetches,rows,walked⟩
  · rintro ⟨fetches,rows,walked⟩
    exact ⟨fetches,_,rows,walked,rfl⟩

theorem followOut {db : Tables} {fetches : Nat} {items : List NotificationResponse}
    (done : follow timeParse ctx q [] (List.replicate fetches db) = some items) :
    items = (orderBy Notification.place (matching f db)).map toResponse := by
  rw [followWalk built _ pointsEmpty,List.map_replicate] at done
  obtain ⟨rows,walked,rfl⟩ := Option.map_eq_some_iff.mp done
  rw [constantOut (matchingDistinct f db) (limitPositive built) walked]

end Complete

theorem followingCursorsComplete [Parser] (timeParse : Text → Option Int) {ctx : Context} {q : ListQuery}
    {limit : Nat} {f : Filter}
    (built : listFilter timeParse ctx {q with cursor := []} = .ok (limit,f)) (immutable : q.status = []) :
    (∀ tables items, tables.IsChain Persists → (∀ db ∈ tables, OneAtZero f db) →
      follow timeParse ctx q [] tables = some items →
      items.Pairwise (fun a b => newestFirst a.createdAt a.id < newestFirst b.createdAt b.id) ∧
      (items.map NotificationResponse.id).Nodup ∧
      (∀ i ∈ items, ∃ db ∈ tables, ∃ n ∈ matching f db, i = toResponse n) ∧
      ∀ db, tables.head? = some db → ∀ n ∈ matching f db, ∃ i ∈ items, i.id = n.id ∧ i.createdAt = n.createdAt) ∧
    ∀ db, ((∃ fetches items, follow timeParse ctx q [] (List.replicate fetches db) = some items) ↔
        ∀ k, ¬ (early f db < k*limit ∧ k*limit < early f db + atZero f db)) ∧
      ∀ fetches items, follow timeParse ctx q [] (List.replicate fetches db) = some items →
        items = (orderBy Notification.place (matching f db)).map toResponse := by
  refine ⟨fun tables items persists one done => ?_,fun db => ⟨followEnds built db,fun _ _ => followOut built⟩⟩
  obtain ⟨rows,rfl,covers⟩ := followCovers built immutable persists one done
  have origin : ∀ n ∈ rows, ∃ db ∈ tables, n ∈ matching f db := by
    intro n mem
    obtain ⟨_,t,inside,there⟩ := covers.sound n mem
    obtain ⟨db,own,rfl⟩ := List.mem_map.mp inside
    exact ⟨db,own,there⟩
  refine ⟨?_,?_,?_,?_⟩
  · rw [List.pairwise_map]
    exact covers.increasing
  · rw [List.map_map,List.Nodup,List.pairwise_map]
    refine covers.increasing.imp_of_mem (fun {a b} left right order same => ?_)
    obtain ⟨x,inX,ownA⟩ := origin a left
    obtain ⟨y,inY,ownB⟩ := origin b right
    have times := walkSameTimes persists inX inY a (List.mem_filter.mp ownA).1 b (List.mem_filter.mp ownB).1 same
    rw [Notification.place,Notification.place,times,show a.id = b.id from same] at order
    exact absurd order (lt_irrefl _)
  · intro i mem
    obtain ⟨n,inside,rfl⟩ := List.mem_map.mp mem
    obtain ⟨db,own,there⟩ := origin n inside
    exact ⟨db,own,n,there,rfl⟩
  · intro db first n mem
    obtain ⟨n',inside,same⟩ := covers.complete (matching f db) (by rw [List.head?_map,first]; rfl) n mem rfl
    obtain ⟨times,ids⟩ := newestInjective same
    exact ⟨toResponse n',List.mem_map_of_mem inside,ids,times⟩

def row (id : UUID) (createdAt : Stamp) : Notification :=
  ⟨id,none,.email,"a@b.c".toList,"hi".toList,5,.sent,0,none,none,createdAt,createdAt,some createdAt,[],none,none,some 3⟩

def caller : Context := ⟨⟨Uuids.string 3,["notifications:read"]⟩,[]⟩

def oneByOne : ListQuery := ⟨['1'],[],[],[],[],[],[]⟩

def ownRows : Filter := ⟨some 3,none,none,none,none,none,zero⟩

theorem oneByOneBuilt [Parser] : listFilter parseRFC3339 caller {oneByOne with cursor := []} = .ok (1,ownRows) := by
  have owner : ownerFromCtx caller.key = some 3 := Uuids.parseString 3
  have own : ownerClause caller = .ok (some 3) := by
    rw [ownerClause,if_neg (by decide),owner]
  exact (listFilterOk parseRFC3339).mpr ⟨by decide,rfl,own,rfl,rfl,rfl,rfl,rfl⟩

theorem soonAfter : 7 < 315537897600*1000000 := by decide

def few : Tables := ⟨[row 1 ⟨7,soonAfter⟩,row 2 ⟨7,soonAfter⟩,row 4 ⟨0,startRange⟩],[],[],by unfold Distinct; decide,
  List.nodup_nil,List.nodup_nil⟩

def ancient : Tables := ⟨[row 1 ⟨0,startRange⟩,row 2 ⟨0,startRange⟩],[],[],by unfold Distinct; decide,
  List.nodup_nil,List.nodup_nil⟩

section Sample
attribute [local instance] canonical

theorem fewFollowed : ∃ fetches items, follow parseRFC3339 caller oneByOne [] (List.replicate fetches few) = some items ∧
    items.map NotificationResponse.id = [2,1,4] ∧ (items.map NotificationResponse.id).Nodup := by
  have complete := followingCursorsComplete parseRFC3339 oneByOneBuilt rfl
  have counts : early ownRows few = 2 ∧ atZero ownRows few = 1 := by decide +kernel
  have ends := (complete.2 few).1.mpr (fun k => by rw [counts.1,counts.2]; omega)
  obtain ⟨fetches,items,done⟩ := ends
  have all := (complete.2 few).2 fetches items done
  have once : OneAtZero ownRows few := by
    unfold OneAtZero
    decide +kernel
  have stays : Persists few few := fun n mem => ⟨n,mem,rfl,rfl,rfl,rfl,rfl⟩
  have chain : (List.replicate fetches few).IsChain Persists := List.isChain_replicate_of_rel fetches stays
  have walked := complete.1 _ items chain (fun db mem => by rw [List.eq_of_mem_replicate mem]; exact once) done
  refine ⟨fetches,items,done,?_,walked.2.1⟩
  rw [all]
  decide +kernel

theorem ancientRowsWalkForever : ¬ ∀ (ctx : Context) (q : ListQuery) (limit : Nat) (f : Filter) (db : Tables),
    listFilter parseRFC3339 ctx {q with cursor := []} = .ok (limit,f) → q.status = [] →
      ∃ fetches items, follow parseRFC3339 ctx q [] (List.replicate fetches db) = some items := by
  intro ends
  have counts : early ownRows ancient = 0 ∧ atZero ownRows ancient = 2 := by decide +kernel
  have never := (followEnds oneByOneBuilt ancient).mp (ends caller oneByOne 1 ownRows ancient oneByOneBuilt rfl) 1
  rw [counts.1,counts.2] at never
  omega

end Sample

end Notifyd.Pagination
