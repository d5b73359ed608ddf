import Mathlib.Data.List.Forall2
import Mathlib.Data.List.TakeWhile
import Notifyd.Numerals
import Notifyd.Utf8

/-! The redacting log handler of `internal/observability/slog.go`: what it passes to the base handler, and
which two runs the base handler cannot tell apart. `strings.ToLower` and sha256 are parameters. -/
namespace Notifyd.Redaction
open Numerals

inductive Kind where
  | any | bool | duration | float64 | int64 | time | uint64 | logValuer
  deriving DecidableEq, Repr

inductive Attr where
  | text (key : Text) (s : Bytes)
  | other (key : Text) (kind : Kind) (printed : Bytes)
  | group (key : Text) (attrs : List Attr)

def Attr.key : Attr → Text
  | .text key _ => key
  | .other key _ _ => key
  | .group key _ => key

/- `Value.String`. A group prints as a slice of its attributes. -/
mutual
def Attr.string : Attr → Bytes
  | .text _ s => s
  | .other _ _ printed => printed
  | .group _ attrs => ascii "[" ++ printAll attrs ++ ascii "]"
def printAll : List Attr → Bytes
  | [] => []
  | [a] => Utf8.bytes a.key ++ ascii "=" ++ a.string
  | a::b::rest => Utf8.bytes a.key ++ ascii "=" ++ a.string ++ ascii " " ++ printAll (b::rest)
end

inductive Pii where
  | phone | email | content | secret
  deriving DecidableEq, Repr

section
variable (toLower : Text → Text) (sha256 : Bytes → Bytes)

def piiOf (key : Text) : Option Pii :=
  [("recipient",Pii.phone),("phone",.phone),("email",.email),("content",.content),("body",.content),
    ("api_key",.secret),("apikey",.secret),("secret",.secret),("password",.secret),("token",.secret)].lookup
    (String.ofList (toLower key))

def redacted : Bytes := ascii "[REDACTED]"

def maskPhone (s : Bytes) : Bytes :=
  if s.length < 6 then redacted
  else s.take 3 ++ List.replicate (max 1 (s.length - 5)) 42 ++ s.drop (s.length - 2)

def sign : UInt8 := 64

def maskEmail (s : Bytes) : Bytes :=
  let cut := s.idxOf sign
  if cut = s.length ∨ cut = 0 then redacted
  else if (s.take cut).length ≤ 1 then s.take cut ++ ascii "***" ++ s.drop cut
  else (s.take cut).take 1 ++ ascii "***" ++ s.drop cut

def hex (bs : Bytes) : Text := bs.flatMap (fun b => numeral 16 2 b.toNat)

def shortHash (s : Bytes) : Bytes :=
  if s = [] then ascii "empty" else Utf8.bytes (hex ((sha256 s).take 4))

def itoa (n : Nat) : Bytes := Utf8.bytes (Nat.toDigits 10 n)

def redact (a : Attr) : Attr :=
  match piiOf toLower a.key with
  | some .phone => .text a.key (maskPhone a.string)
  | some .email => .text a.key (maskEmail a.string)
  | some .content => .text a.key (ascii "len=" ++ itoa a.string.length ++ ascii " sha256:" ++ shortHash sha256 a.string)
  | some .secret => .text a.key redacted
  | none => a

structure Record where
  time : Nat
  level : Int
  message : Text
  pc : Nat
  attrs : List Attr

inductive Derive where
  | withAttrs (attrs : List Attr)
  | withGroup (name : Text)

def Attr.emptyGroup : Attr → Bool
  | .group _ [] => true
  | _ => false

def handlerDerive : Derive → Derive
  | .withAttrs attrs => .withAttrs (attrs.map (redact toLower sha256))
  | .withGroup name => .withGroup name

/- `AddAttrs` leaves empty groups out. -/
def handlerRecord (r : Record) : Record :=
  {r with attrs := (r.attrs.map (redact toLower sha256)).filter (fun a => !a.emptyGroup)}

structure Logged where
  derived : List Derive
  record : Record

def passed (l : Logged) : Logged := ⟨l.derived.map (handlerDerive toLower sha256),handlerRecord toLower sha256 l.record⟩

inductive Shown where
  | phone (length : Nat) (first last : Bytes)
  | email (first : Option UInt8) (domain : Option Bytes)
  | content (length : Nat) (hash : Bytes)
  | secret
  deriving DecidableEq, Repr

def domainOf (s : Bytes) : Option Bytes :=
  if sign ∈ s then some (s.reverse.takeWhile (· != sign)).reverse else none

def Pii.shown (s : Bytes) : Pii → Shown
  | .phone => .phone s.length (s.take 3) (s.drop (s.length - 2))
  | .email => .email s.head? (domainOf s)
  | .content => .content s.length (shortHash sha256 s)
  | .secret => .secret

inductive Alike : Attr → Attr → Prop where
  | same (a : Attr) : Alike a a
  | pii {a b : Attr} {p : Pii} (key : b.key = a.key) (listed : piiOf toLower a.key = some p)
      (shown : p.shown sha256 b.string = p.shown sha256 a.string) : Alike a b
  | group {key : Text} {as bs : List Attr} (unlisted : piiOf toLower key = none) (members : List.Forall₂ Alike as bs) :
      Alike (.group key as) (.group key bs)

inductive AlikeDerive : Derive → Derive → Prop where
  | withAttrs {as bs : List Attr} (attrs : List.Forall₂ (Alike toLower sha256) as bs) :
      AlikeDerive (.withAttrs as) (.withAttrs bs)
  | withGroup (name : Text) : AlikeDerive (.withGroup name) (.withGroup name)

structure AlikeRuns (l m : Logged) : Prop where
  derived : List.Forall₂ (AlikeDerive toLower sha256) l.derived m.derived
  record : m.record = {l.record with attrs := m.record.attrs}
  attrs : List.Forall₂ (Alike toLower sha256) l.record.attrs m.record.attrs

def Hidden (a b : Attr) : Prop :=
  match piiOf toLower a.key with
  | some .email => a.string.head? = some sign ∨ a.string.dropWhile (· != sign) = b.string.dropWhile (· != sign)
  | some _ => True
  | none => a = b

def Derive.attrs : Derive → List Attr
  | .withAttrs attrs => attrs
  | .withGroup _ => []

def HiddenRuns (l m : Logged) : Prop :=
  List.Forall₂ (fun d e => List.Forall₂ (Hidden toLower) d.attrs e.attrs) l.derived m.derived ∧
  List.Forall₂ (Hidden toLower) l.record.attrs m.record.attrs

end

theorem domainNone {s : Bytes} : domainOf s = none ↔ sign ∉ s := by
  unfold domainOf
  split <;> simp_all

theorem maskShape (s : Bytes) : maskEmail s =
    if domainOf s = none ∨ s.head? = some sign then redacted else s.take 1 ++ ascii "***" ++ s.dropWhile (· != sign) := by
  by_cases present : sign ∈ s
  · obtain ⟨left,right,rfl,first⟩ := List.eq_append_cons_of_mem present
    have index : (left ++ sign :: right).idxOf sign = left.length := by
      rw [List.idxOf_append_of_notMem first,List.idxOf_cons_self,Nat.add_zero]
    have inside : left.length ≠ (left ++ sign :: right).length := by simp
    have passes : ∀ b ∈ left, (b != sign) = true := fun b mem => bne_iff_ne.mpr (fun same => first (same ▸ mem))
    have found : domainOf (left ++ sign :: right) ≠ none := fun none_ => domainNone.mp none_ present
    unfold maskEmail
    have rest : (left ++ sign :: right).dropWhile (· != sign) = sign :: right := by
      rw [List.dropWhile_append_of_pos passes]
      rfl
    simp only [index,List.take_left,List.drop_left,inside,false_or,List.length_eq_zero_iff,found,rest]
    cases left with
    | nil => rfl
    | cons b rest =>
      have other : b ≠ sign := fun same => first (same ▸ List.mem_cons_self)
      simp only [List.cons_append,List.head?_cons,Option.some.injEq,other,if_false,List.take_succ_cons,List.take_zero,
        reduceCtorEq,List.length_cons]
      split
      · rename_i short
        rw [List.eq_nil_of_length_eq_zero (Nat.le_zero.mp (Nat.le_of_succ_le_succ short))]
      · rfl
  · have index : s.idxOf sign = s.length := List.idxOf_eq_length present
    rw [maskEmail,index,if_pos (.inl rfl),if_pos (.inl (domainNone.mpr present))]

theorem maskSame {s t : Bytes} (first : t.head? = s.head?) (domain : domainOf t = domainOf s) :
    maskEmail s = maskEmail t ↔ s.head? = some sign ∨ s.dropWhile (· != sign) = t.dropWhile (· != sign) := by
  have absent {u : Bytes} (none_ : domainOf u = none) : u.dropWhile (· != sign) = [] :=
    List.dropWhile_eq_nil_iff.mpr fun b mem => bne_iff_ne.mpr fun same => domainNone.mp none_ (same ▸ mem)
  have heads : t.take 1 = s.take 1 := by rw [List.take_one,List.take_one,first]
  rw [maskShape,maskShape,first,domain,heads]
  by_cases gone : domainOf s = none
  · rw [absent gone,absent (domain.trans gone)]
    exact iff_of_true rfl (.inr rfl)
  by_cases front : s.head? = some sign
  · rw [if_pos (.inr front),if_pos (.inr front)]
    exact iff_of_true rfl (.inl front)
  · have open_ : ¬(domainOf s = none ∨ s.head? = some sign) := fun either => either.elim gone front
    rw [if_neg open_,if_neg open_,List.append_cancel_left_eq]
    exact ⟨.inr,fun either => either.resolve_left front⟩

-- With two '@' the mask starts at the first one and shows what stands between them.
example : domainOf (ascii "a@b@x.org") = domainOf (ascii "a@c@x.org") ∧
    maskEmail (ascii "a@b@x.org") ≠ maskEmail (ascii "a@c@x.org") := by decide +kernel

section
variable {toLower : Text → Text} {sha256 : Bytes → Bytes}

theorem maskPhoneShown {s t : Bytes} (shown : Pii.shown sha256 t .phone = Pii.shown sha256 s .phone) :
    maskPhone t = maskPhone s := by
  obtain ⟨length,first,last⟩ := Shown.phone.inj shown
  unfold maskPhone
  rw [last,first,length]

theorem redactPii {a b : Attr} {p : Pii} (key : b.key = a.key) (listed : piiOf toLower a.key = some p)
    (shown : p.shown sha256 b.string = p.shown sha256 a.string) :
    redact toLower sha256 a = redact toLower sha256 b ↔ Hidden toLower a b := by
  unfold redact Hidden
  rw [key,listed]
  cases p with
  | phone => simp only [maskPhoneShown shown]
  | email =>
    obtain ⟨first,domain⟩ := Shown.email.inj shown
    simp only [Attr.text.injEq,true_and]
    exact maskSame first domain
  | content =>
    obtain ⟨length,hash⟩ := Shown.content.inj shown
    simp only [length,hash]
  | secret => simp only

theorem hiddenSame (a : Attr) : Hidden toLower a a := by
  unfold Hidden
  split
  · exact .inr rfl
  · trivial
  · rfl

theorem redactAlike {a b : Attr} (alike : Alike toLower sha256 a b) :
    redact toLower sha256 a = redact toLower sha256 b ↔ Hidden toLower a b := by
  cases alike with
  | same => exact iff_of_true rfl (hiddenSame a)
  | pii key listed shown => exact redactPii key listed shown
  | group unlisted members =>
    unfold redact Hidden Attr.key
    simp only [unlisted]

theorem emptyAlike {a b : Attr} (alike : Alike toLower sha256 a b) :
    (redact toLower sha256 a).emptyGroup = (redact toLower sha256 b).emptyGroup ∧
      ((redact toLower sha256 a).emptyGroup = true → redact toLower sha256 a = redact toLower sha256 b) := by
  cases alike with
  | same => exact ⟨rfl,fun _ => rfl⟩
  | @pii _ _ p key listed shown =>
    unfold redact
    rw [key,listed]
    cases p <;> exact ⟨rfl,nofun⟩
  | @group key as bs unlisted members =>
    unfold redact Attr.key
    simp only [unlisted]
    cases members with
    | nil => exact ⟨rfl,fun _ => rfl⟩
    | cons => exact ⟨rfl,nofun⟩

theorem attrsAlike {as bs : List Attr} (alike : List.Forall₂ (Alike toLower sha256) as bs) :
    as.map (redact toLower sha256) = bs.map (redact toLower sha256) ↔ List.Forall₂ (Hidden toLower) as bs := by
  induction alike with
  | nil => exact iff_of_true rfl .nil
  | cons first _ ih => rw [List.map_cons,List.map_cons,List.cons.injEq,List.forall₂_cons,redactAlike first,ih]

theorem filteredAlike {as bs : List Attr} (alike : List.Forall₂ (Alike toLower sha256) as bs) :
    (as.map (redact toLower sha256)).filter (fun a => !a.emptyGroup) =
      (bs.map (redact toLower sha256)).filter (fun a => !a.emptyGroup) ↔
    as.map (redact toLower sha256) = bs.map (redact toLower sha256) := by
  induction alike with
  | nil => exact iff_of_true rfl rfl
  | @cons a b as bs first _ ih =>
    obtain ⟨together,same⟩ := emptyAlike first
    rw [List.map_cons,List.map_cons,List.filter_cons,List.filter_cons,← together]
    cases empty : (redact toLower sha256 a).emptyGroup with
    | true =>
      rw [same empty,List.cons.injEq]
      simpa using ih
    | false =>
      simp only [Bool.not_false,if_true,List.cons.injEq]
      rw [ih]

theorem deriveAlike {d e : Derive} (alike : AlikeDerive toLower sha256 d e) :
    handlerDerive toLower sha256 d = handlerDerive toLower sha256 e ↔ List.Forall₂ (Hidden toLower) d.attrs e.attrs := by
  cases alike with
  | withAttrs attrs =>
    rw [handlerDerive,handlerDerive,Derive.withAttrs.injEq]
    exact attrsAlike attrs
  | withGroup name => exact iff_of_true rfl .nil

theorem derivedAlike {ds es : List Derive} (alike : List.Forall₂ (AlikeDerive toLower sha256) ds es) :
    ds.map (handlerDerive toLower sha256) = es.map (handlerDerive toLower sha256) ↔
      List.Forall₂ (fun d e => List.Forall₂ (Hidden toLower) d.attrs e.attrs) ds es := by
  induction alike with
  | nil => exact iff_of_true rfl .nil
  | cons first _ ih => rw [List.map_cons,List.map_cons,List.cons.injEq,List.forall₂_cons,deriveAlike first,ih]

/-- The base handler is given the same in two alike runs if and only if what differs is hidden. -/
theorem redactionHidesExactly {l m : Logged} (alike : AlikeRuns toLower sha256 l m) :
    passed toLower sha256 l = passed toLower sha256 m ↔ HiddenRuns toLower l m := by
  have records : handlerRecord toLower sha256 l.record = handlerRecord toLower sha256 m.record ↔
      List.Forall₂ (Hidden toLower) l.record.attrs m.record.attrs := by
    unfold handlerRecord
    rw [alike.record,Record.mk.injEq]
    simp only [true_and]
    rw [filteredAlike alike.attrs,attrsAlike alike.attrs]
  rw [passed,passed,Logged.mk.injEq,derivedAlike alike.derived,records]
  rfl

end

section Logging
variable {email email' phone phone' : Bytes}

def lower (t : Text) : Text := t.map Char.toLower

def message (attrs : List Attr) : Record := ⟨0,0,"accepted".toList,0,attrs⟩

def send (email phone : Bytes) : Logged :=
  ⟨[.withGroup "api".toList,.withAttrs [.text "Email".toList email]],
    message [.text "recipient".toList phone,.group "http".toList [.other "status".toList .int64 (ascii "201")]]⟩

def grouped (email : Bytes) : Logged := ⟨[],message [.group "user".toList [.text "email".toList email]]⟩

theorem listedEmail : piiOf lower "Email".toList = some .email ∧ piiOf lower "email".toList = some .email ∧
    piiOf lower "recipient".toList = some .phone := by decide

theorem unlistedGroups : piiOf lower "http".toList = none ∧ piiOf lower "status".toList = none ∧
    piiOf lower "user".toList = none := by decide

theorem sendAlike (address : Pii.shown id email' .email = Pii.shown id email .email)
    (number : Pii.shown id phone' .phone = Pii.shown id phone .phone) :
    AlikeRuns lower id (send email phone) (send email' phone') := by
  refine ⟨.cons (.withGroup _) (.cons (.withAttrs (.cons ?_ .nil)) .nil),rfl,.cons ?_ (.cons (.same _) .nil)⟩
  · exact .pii rfl listedEmail.1 address
  · exact .pii rfl listedEmail.2.2 number

theorem groupedAlike (address : Pii.shown id email' .email = Pii.shown id email .email) :
    AlikeRuns lower id (grouped email) (grouped email') := by
  refine ⟨.nil,rfl,.cons (.group unlistedGroups.2.2 (.cons ?_ .nil)) .nil⟩
  exact .pii rfl listedEmail.2.1 address

theorem groupedPassed : (passed lower id (grouped email)).record.attrs =
    [.group "user".toList [.text "email".toList email]] := by
  have kept : redact lower id (.group "user".toList [.text "email".toList email]) =
      .group "user".toList [.text "email".toList email] := by
    unfold redact
    rw [show piiOf lower (Attr.group "user".toList _).key = none from unlistedGroups.2.2]
  simp only [passed,handlerRecord,grouped,message,List.map_cons,List.map_nil,kept]
  rfl

end Logging

def ada : Bytes := ascii "ada@x.org"

def abe : Bytes := ascii "abe@x.org"

theorem sameAddressShown : Pii.shown id abe .email = Pii.shown id ada .email ∧
    ada.dropWhile (· != sign) = abe.dropWhile (· != sign) := by decide +kernel

def number : Bytes := ascii "+905551234567"

def number' : Bytes := ascii "+905559994567"

theorem sameNumberShown : Pii.shown id number' .phone = Pii.shown id number .phone := by decide +kernel

theorem sendHides : AlikeRuns lower id (send ada number) (send abe number') ∧
    passed lower id (send ada number) = passed lower id (send abe number') := by
  have alike := sendAlike sameAddressShown.1 sameNumberShown
  have address : Hidden lower (.text "Email".toList ada) (.text "Email".toList abe) := by
    unfold Hidden
    rw [show piiOf lower (Attr.text "Email".toList ada).key = some .email from listedEmail.1]
    exact .inr sameAddressShown.2
  have phone : Hidden lower (.text "recipient".toList number) (.text "recipient".toList number') := by
    unfold Hidden
    rw [show piiOf lower (Attr.text "recipient".toList number).key = some .phone from listedEmail.2.2]
    trivial
  have hidden : HiddenRuns lower (send ada number) (send abe number') :=
    ⟨.cons .nil (.cons (.cons address .nil) .nil),.cons phone (.cons (hiddenSame _) .nil)⟩
  exact ⟨alike,(redactionHidesExactly alike).mpr hidden⟩

theorem groupLeaks : ¬ ∀ l m : Logged, AlikeRuns lower id l m → passed lower id l = passed lower id m := by
  intro hides
  have same := hides _ _ (groupedAlike sameAddressShown.1)
  have shown := congrArg (fun l : Logged => l.record.attrs) same
  simp only [groupedPassed,List.cons.injEq,Attr.group.injEq,Attr.text.injEq,true_and,and_true] at shown
  exact absurd shown (by decide +kernel)

end Notifyd.Redaction
