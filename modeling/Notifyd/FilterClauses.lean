import Mathlib.Data.List.TakeDrop
import Mathlib.Data.List.TakeWhile
import Notifyd.Hub

/-! What a filter string of the status feed says, clause by clause, and what `ParseFilter` makes of it. The
parser keeps one value for each key, so a later clause takes the place of an earlier one. -/
namespace Notifyd.FilterClauses
open Numerals Uuids Hub

inductive Clause where
  | batchId (id : UUID)
  | channel (name : Text)
  deriving DecidableEq, Repr

def channels : List Text := ["sms".toList,"email".toList,"push".toList]

inductive Reads [Parser] (part : Text) : Clause → Prop where
  | batchId {key value : Text} {id : UUID} (split : trimSpace part = key ++ ':' :: value) (first : ':' ∉ key)
      (named : trimSpace key = "batch_id".toList) (uuid : parse (trimSpace value) = some id) : Reads part (.batchId id)
  | channel {key value : Text} (split : trimSpace part = key ++ ':' :: value) (first : ':' ∉ key)
      (named : trimSpace key = "channel".toList) (known : trimSpace value ∈ channels) :
      Reads part (.channel (trimSpace value))

def Clause.key : Clause → Text
  | .batchId _ => "batch_id".toList
  | .channel _ => "channel".toList

def Satisfies (ev : StatusEvent) : Clause → Prop
  | .batchId id => ev.batchId = some id
  | .channel name => ev.channel = name

def Occurs [Parser] (s : Text) (c : Clause) : Prop := s ≠ [] ∧ ∃ part ∈ s.splitOn ',', Reads part c

def Consistent [Parser] (s : Text) : Prop := ∀ c d, Occurs s c → Occurs s d → c.key = d.key → c = d

def Clause.apply (f : Filter) : Clause → Filter
  | .batchId id => {f with batchId := some id}
  | .channel name => {f with channel := name}

theorem splitColonSome {t key value : Text} :
    splitColon t = some (key,value) ↔ t = key ++ ':' :: value ∧ ':' ∉ key := by
  unfold splitColon
  rw [List.span_eq_takeWhile_dropWhile]
  constructor
  · intro found
    split at found
    · rename_i before colon after shape
      cases Option.some.inj found
      obtain ⟨before,rest⟩ := Prod.mk.inj shape
      have stop : colon = ':' := by
        have head := List.head?_dropWhile_not (fun c => c != ':') t
        rw [rest] at head
        simpa using head
      subst stop
      refine ⟨?_,?_⟩
      · rw [← before,← rest,List.takeWhile_append_dropWhile]
      · intro inside
        rw [← before] at inside
        exact absurd (List.mem_takeWhile_imp inside) (by decide)
    · cases found
  · rintro ⟨rfl,first⟩
    have passes : ∀ c ∈ key, (c != ':') = true := by
      intro c mem
      exact bne_iff_ne.mpr (fun same => first (same ▸ mem))
    rw [List.takeWhile_append_of_pos passes,List.dropWhile_append_of_pos passes]
    simp

theorem keysApart : ("channel".toList : Text) ≠ "batch_id".toList := by decide

theorem applyPartOk [Parser] {f f' : Filter} {part : Text} :
    applyPart f part = .ok f' ↔ ∃ c, Reads part c ∧ f' = c.apply f := by
  constructor
  · intro done
    unfold applyPart at done
    split at done
    · cases done
    · rename_i key value split
      obtain ⟨shape,first⟩ := splitColonSome.mp split
      simp only at done
      split at done
      · rename_i named
        split at done
        · rename_i id uuid
          cases done
          exact ⟨_,.batchId shape first named uuid,rfl⟩
        · cases done
      · split at done
        · rename_i named
          split at done
          · rename_i known
            cases done
            exact ⟨_,.channel shape first named known,rfl⟩
          · cases done
        · cases done
  · rintro ⟨c,reads,rfl⟩
    cases reads with
    | batchId shape first named uuid =>
      simp only [applyPart,splitColonSome.mpr ⟨shape,first⟩,named,uuid,if_true,Clause.apply]
    | channel shape first named known =>
      simp only [applyPart,splitColonSome.mpr ⟨shape,first⟩,named,keysApart,if_true,if_false,Clause.apply]
      exact if_pos known

theorem readsUnique [Parser] {part : Text} {c d : Clause} (left : Reads part c) (right : Reads part d) : c = d := by
  cases left with
  | batchId shape first named uuid =>
    have one := splitColonSome.mpr ⟨shape,first⟩
    cases right with
    | batchId shape' first' named' uuid' =>
      cases Option.some.inj (one.symm.trans (splitColonSome.mpr ⟨shape',first'⟩))
      rw [Option.some.inj (uuid.symm.trans uuid')]
    | channel shape' first' named' known' =>
      cases Option.some.inj (one.symm.trans (splitColonSome.mpr ⟨shape',first'⟩))
      exact absurd (named'.symm.trans named) keysApart
  | channel shape first named known =>
    have one := splitColonSome.mpr ⟨shape,first⟩
    cases right with
    | batchId shape' first' named' uuid' =>
      cases Option.some.inj (one.symm.trans (splitColonSome.mpr ⟨shape',first'⟩))
      exact absurd (named.symm.trans named') keysApart
    | channel shape' first' named' known' =>
      cases Option.some.inj (one.symm.trans (splitColonSome.mpr ⟨shape',first'⟩))
      rfl

theorem foldParts [Parser] {parts : List Text} {f f' : Filter} :
    parts.foldlM applyPart f = .ok f' ↔ ∃ cs, List.Forall₂ Reads parts cs ∧ f' = cs.foldl Clause.apply f := by
  induction parts generalizing f with
  | nil =>
    constructor
    · intro done
      cases done
      exact ⟨[],.nil,rfl⟩
    · rintro ⟨cs,read,rfl⟩
      cases read
      rfl
  | cons part rest ih =>
    rw [List.foldlM_cons]
    constructor
    · intro done
      cases first : applyPart f part with
      | error e =>
        rw [first] at done
        cases done
      | ok g =>
        rw [first] at done
        obtain ⟨c,read,rfl⟩ := applyPartOk.mp first
        obtain ⟨cs,others,last⟩ := ih.mp done
        exact ⟨c::cs,.cons read others,last⟩
    · rintro ⟨cs,read,last⟩
      cases read with
      | cons head tail =>
        rw [applyPartOk.mpr ⟨_,head,rfl⟩]
        exact ih.mpr ⟨_,tail,last⟩

theorem foldedLast {β : Type} (field : Filter → β) (sets : Clause → Option β)
    (law : ∀ f c, field (Clause.apply f c) = (sets c).getD (field f)) (cs : List Clause) (f : Filter) :
    (field (cs.foldl Clause.apply f) = field f ∧ ∀ c ∈ cs, sets c = none) ∨
      ∃ c ∈ cs, sets c = some (field (cs.foldl Clause.apply f)) := by
  induction cs generalizing f with
  | nil => exact .inl ⟨rfl,nofun⟩
  | cons c cs ih =>
    rw [List.foldl_cons]
    rcases ih (c.apply f) with ⟨kept,unset⟩ | ⟨d,later,set⟩
    · cases put : sets c with
      | none =>
        rw [law,put] at kept
        exact .inl ⟨kept,List.forall_mem_cons.mpr ⟨put,unset⟩⟩
      | some value =>
        rw [law,put] at kept
        exact .inr ⟨c,List.mem_cons_self,by rw [kept,put]; rfl⟩
    · exact .inr ⟨d,List.mem_cons_of_mem _ later,set⟩

def setsBatch : Clause → Option (Option UUID)
  | .batchId id => some (some id)
  | .channel _ => none

def setsChannel : Clause → Option Text
  | .batchId _ => none
  | .channel name => some name

theorem batchLast (cs : List Clause) :
    ((cs.foldl Clause.apply .zero).batchId = none ∧ ∀ id, Clause.batchId id ∉ cs) ∨
      ∃ id, Clause.batchId id ∈ cs ∧ (cs.foldl Clause.apply .zero).batchId = some id := by
  rcases foldedLast Filter.batchId setsBatch (by rintro f (_ | _) <;> rfl) cs .zero with ⟨kept,unset⟩ | ⟨c,mem,set⟩
  · exact .inl ⟨kept,fun id mem => nomatch unset _ mem⟩
  · cases c with
    | batchId id => exact .inr ⟨id,mem,(Option.some.inj set).symm⟩
    | channel name => cases set

theorem channelLast (cs : List Clause) :
    ((cs.foldl Clause.apply .zero).channel = [] ∧ ∀ name, Clause.channel name ∉ cs) ∨
      Clause.channel (cs.foldl Clause.apply .zero).channel ∈ cs := by
  rcases foldedLast Filter.channel setsChannel (by rintro f (_ | _) <;> rfl) cs .zero with ⟨kept,unset⟩ | ⟨c,mem,set⟩
  · exact .inl ⟨kept,fun name mem => nomatch unset _ mem⟩
  · cases c with
    | batchId id => cases set
    | channel name => exact .inr (Option.some.inj set ▸ mem)

def Clauses [Parser] (s : Text) (cs : List Clause) : Prop :=
  if s = [] then cs = [] else List.Forall₂ Reads (s.splitOn ',') cs

theorem parseOk [Parser] {s : Text} {f : Filter} :
    parseFilter s = .ok f ↔ ∃ cs, Clauses s cs ∧ f = cs.foldl Clause.apply .zero := by
  unfold parseFilter Clauses
  split
  · constructor
    · intro done
      cases done
      exact ⟨[],rfl,rfl⟩
    · rintro ⟨cs,rfl,rfl⟩
      rfl
  · exact foldParts

theorem readsMem [Parser] {parts : List Text} {cs : List Clause} (read : List.Forall₂ Reads parts cs) (c : Clause) :
    c ∈ cs ↔ ∃ part ∈ parts, Reads part c := by
  induction read with
  | nil => simp
  | cons first _ ih =>
    rw [List.mem_cons,List.exists_mem_cons_iff,ih]
    refine or_congr_left ⟨?_,fun reads => readsUnique reads first⟩
    rintro rfl
    exact first

theorem readsAll [Parser] {parts : List Text} : (∃ cs, List.Forall₂ Reads parts cs) ↔ ∀ part ∈ parts, ∃ c, Reads part c := by
  induction parts with
  | nil => exact ⟨fun _ => by simp,fun _ => ⟨[],.nil⟩⟩
  | cons part rest ih =>
    rw [List.forall_mem_cons,← ih]
    constructor
    · rintro ⟨_,_ | ⟨first,others⟩⟩
      exact ⟨⟨_,first⟩,_,others⟩
    · rintro ⟨⟨_,first⟩,_,others⟩
      exact ⟨_,.cons first others⟩

theorem occursMem [Parser] {s : Text} {cs : List Clause} (read : Clauses s cs) (c : Clause) : c ∈ cs ↔ Occurs s c := by
  unfold Clauses at read
  split at read
  · rename_i empty
    subst read
    exact ⟨nofun,fun occurs => absurd empty occurs.1⟩
  · rename_i given
    rw [readsMem read]
    exact (and_iff_right given).symm

theorem parseFails [Parser] (s : Text) :
    (∀ f, parseFilter s ≠ .ok f) ↔ s ≠ [] ∧ ∃ part ∈ s.splitOn ',', ∀ c, ¬ Reads part c := by
  have accepted : (∃ f, parseFilter s = .ok f) ↔ s = [] ∨ ∀ part ∈ s.splitOn ',', ∃ c, Reads part c := by
    simp only [parseOk,exists_comm (α := Filter),exists_and_left,exists_eq,and_true,Clauses,← readsAll]
    by_cases empty : s = []
    · simp [empty]
    · simp [empty]
  rw [← not_exists,accepted]
  push Not
  rfl

def wanted (f : Filter) : StatusEvent := ⟨f.batchId,f.channel,none⟩

theorem wantedMatches (f : Filter) : {f with adminBypass := true}.matches (wanted f) = true := by
  simp [Filter.matches,wanted]

theorem matchesFields (f : Filter) (ev : StatusEvent) : {f with adminBypass := true}.matches ev = true ↔
    (f.channel = [] ∨ f.channel = ev.channel) ∧ (f.batchId = none ∨ ev.batchId = f.batchId) := by
  simp [Filter.matches]

theorem matchesIff {cs : List Clause} (single : ∀ c ∈ cs, ∀ d ∈ cs, c.key = d.key → c = d)
    (named : Clause.channel [] ∉ cs) (ev : StatusEvent) :
    {cs.foldl Clause.apply .zero with adminBypass := true}.matches ev = true ↔ ∀ c ∈ cs, Satisfies ev c := by
  rw [matchesFields]
  constructor
  · rintro ⟨channel,batch⟩ c mem
    cases c with
    | batchId id =>
      rcases batchLast cs with ⟨_,unset⟩ | ⟨last,set,kept⟩
      · exact absurd mem (unset id)
      · cases single _ set _ mem rfl
        rw [kept] at batch
        exact batch.resolve_left nofun
    | channel name =>
      rcases channelLast cs with ⟨_,unset⟩ | set
      · exact absurd mem (unset name)
      · have same := Clause.channel.inj (single _ set _ mem rfl)
        rw [same] at channel set
        exact (channel.resolve_left (fun empty => named (empty ▸ set))).symm
  · intro all
    constructor
    · rcases channelLast cs with ⟨empty,_⟩ | set
      · exact .inl empty
      · exact .inr (all _ set).symm
    · rcases batchLast cs with ⟨nothing,_⟩ | ⟨id,set,kept⟩
      · exact .inl nothing
      · exact .inr ((all _ set).trans kept.symm)

theorem readsNamed [Parser] {part name : Text} (reads : Reads part (.channel name)) : name ∈ channels := by
  cases reads with
  | channel _ _ _ known => exact known

theorem filterMeansClauses [Parser] (s : Text) :
    ((∀ f, parseFilter s ≠ .ok f) ↔ s ≠ [] ∧ ∃ part ∈ s.splitOn ',', ∀ c, ¬ Reads part c) ∧
    ∀ f, parseFilter s = .ok f →
      ((∀ ev, {f with adminBypass := true}.matches ev = true ↔ ∀ c, Occurs s c → Satisfies ev c) ↔ Consistent s) := by
  refine ⟨parseFails s,?_⟩
  intro f done
  obtain ⟨cs,read,rfl⟩ := parseOk.mp done
  constructor
  · intro means c d left right same
    -- The event that the filter is after satisfies every clause, so two values of one key are equal.
    have all := (means (wanted _)).mp (wantedMatches _)
    have one := all c left
    have two := all d right
    cases c with
    | batchId id => cases d with
      | batchId id' => rw [Option.some.inj (one.symm.trans two)]
      | channel name => exact absurd same keysApart.symm
    | channel name => cases d with
      | batchId id' => exact absurd same keysApart
      | channel name' => rw [one.symm.trans two]
  · intro consistent ev
    have named : Clause.channel [] ∉ cs := by
      intro mem
      obtain ⟨_,part,_,reads⟩ := (occursMem read _).mp mem
      exact absurd (readsNamed reads) (by decide)
    have single : ∀ c ∈ cs, ∀ d ∈ cs, c.key = d.key → c = d := by
      intro c left d right
      exact consistent c d ((occursMem read c).mp left) ((occursMem read d).mp right)
    rw [matchesIff single named]
    exact forall_congr' fun c => imp_congr_left (occursMem read c)

section Sample
attribute [local instance] canonical

theorem laterClauseWins : ¬ ∀ s f, parseFilter s = .ok f →
    ∀ ev, {f with adminBypass := true}.matches ev = true ↔ ∀ c, Occurs s c → Satisfies ev c := by
  intro means
  have done : parseFilter "channel:sms,channel:email".toList = .ok ⟨none,"email".toList,none,false⟩ := rfl
  have all := (means _ _ done ⟨none,"email".toList,none⟩).mp (by decide)
  have occurs : Occurs "channel:sms,channel:email".toList (.channel "sms".toList) := by
    refine ⟨by decide,"channel:sms".toList,by decide,?_⟩
    exact @Reads.channel _ _ "channel".toList "sms".toList (by decide) (by decide) (by decide) (by decide)
  have sms := all _ occurs
  revert sms
  simp [Satisfies]

end Sample

end Notifyd.FilterClauses
