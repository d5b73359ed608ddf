import Notifyd.Utf8

/-! `redactURL`, which the publisher and the consumers apply to the AMQP URL before they log it. The loop
looks for the end of the scheme and for the first '@', and replaces what stands between them. -/
namespace Notifyd.UrlRedaction
open Numerals

def byte (c : Char) : UInt8 := c.toUInt8

/- The loop with its index; `scheme` and `at` of the source are absent while they are -1. -/
def scan : Nat → Option Nat → Bytes → Option Nat × Option Nat
  | _,scheme,[] => (scheme,none)
  | i,scheme,c::rest =>
      let scheme := if c = byte ':' ∧ rest.take 2 = ascii "//" then some (i + 3) else scheme
      if c = byte '@' then (scheme,some i) else scan (i + 1) scheme rest

def redactURL (u : Bytes) : Bytes :=
  match scan 0 none u with
  | (some scheme,some sign) => if sign ≤ scheme then u else u.take scheme ++ (ascii "***" ++ u.drop sign)
  | _ => u

def alphanumeric (c : UInt8) : Bool :=
  (byte 'A' ≤ c && c ≤ byte 'Z') || (byte 'a' ≤ c && c ≤ byte 'z') || (byte '0' ≤ c && c ≤ byte '9')

/- What `net/url` takes for a scheme and, up to the last '@' of the authority, for the userinfo. -/
def schemeByte (c : UInt8) : Bool := alphanumeric c || (ascii "+-.").contains c

def userinfoByte (c : UInt8) : Bool := alphanumeric c || (ascii "-._:~!$&'()*+,;=%@").contains c

def url (scheme userinfo location : Bytes) : Bytes :=
  scheme ++ (ascii "://" ++ (userinfo ++ byte '@' :: location))

def redacted (scheme location : Bytes) : Bytes := scheme ++ (ascii "://" ++ (ascii "***" ++ byte '@' :: location))

section
variable {i : Nat} {seen : Option Nat} {lead userinfo front rest : Bytes}

theorem scanLead (noSign : byte '@' ∉ lead) :
    scan i seen (lead ++ (ascii "://" ++ rest)) = scan (i + lead.length + 3) (some (i + lead.length + 3)) rest := by
  induction lead generalizing i seen with
  | nil => rfl
  | cons c lead ih =>
    simp only [List.mem_cons,not_or] at noSign
    have next : i + (c::lead).length + 3 = i + 1 + lead.length + 3 := by
      rw [List.length_cons]
      omega
    rw [List.cons_append,scan,if_neg (Ne.symm noSign.1),ih noSign.2,next]

theorem scanUserinfo (noSign : byte '@' ∉ userinfo) (noScheme : ¬ ascii "://" <:+: userinfo) :
    scan i seen (userinfo ++ byte '@' :: rest) = (seen,some (i + userinfo.length)) := by
  induction userinfo generalizing i with
  | nil => rfl
  | cons c userinfo ih =>
    simp only [List.mem_cons,not_or] at noSign
    have fixed : ¬ (c = byte ':' ∧ (userinfo ++ byte '@' :: rest).take 2 = ascii "//") := by
      rintro ⟨rfl,slashes⟩
      refine noScheme (List.IsPrefix.isInfix ?_)
      match userinfo with
      | [] => exact absurd (List.cons.inj slashes).1 (by decide)
      | [d] => exact absurd (List.cons.inj (List.cons.inj slashes).2).1 (by decide)
      | d::e::more =>
        obtain ⟨first,others⟩ := List.cons.inj slashes
        rw [first,(List.cons.inj others).1]
        exact List.prefix_append (ascii "://") more
    have next : i + 1 + userinfo.length = i + (c::userinfo).length := by
      rw [List.length_cons]
      omega
    rw [List.cons_append,scan,if_neg (Ne.symm noSign.1),if_neg fixed,
      ih noSign.2 (fun later => noScheme (List.infix_cons later)),next]

theorem scanNoSign (noSign : byte '@' ∉ rest) : (scan i seen rest).2 = none := by
  induction rest generalizing i seen with
  | nil => rfl
  | cons c rest ih =>
    simp only [List.mem_cons,not_or] at noSign
    rw [scan,if_neg (Ne.symm noSign.1)]
    exact ih noSign.2

theorem redactLast (before : byte '@' ∉ lead) (noSign : byte '@' ∉ userinfo) (noScheme : ¬ ascii "://" <:+: userinfo) :
    redactURL (url lead userinfo rest) = if userinfo = [] then url lead userinfo rest else redacted lead rest := by
  unfold redactURL
  rw [show scan 0 none (url lead userinfo rest) = _ from scanLead before,scanUserinfo noSign noScheme,Nat.zero_add]
  cases userinfo with
  | nil => exact if_pos (Nat.le_refl _)
  | cons c userinfo =>
    have far : ¬ lead.length + 3 + (c::userinfo).length ≤ lead.length + 3 := by simp
    have front : (url lead (c::userinfo) rest).take (lead.length + 3) = lead ++ ascii "://" := by
      rw [url,← List.append_assoc,List.take_left' (by simp [ascii])]
    have back : (url lead (c::userinfo) rest).drop (lead.length + 3 + (c::userinfo).length) = byte '@' :: rest := by
      rw [url,← List.append_assoc,← List.append_assoc,List.drop_left' (by simp [ascii]; omega)]
    simp only [if_neg far,front,back,if_neg (List.cons_ne_nil c userinfo),redacted,List.append_assoc]

theorem redactSchemeless (noSign : byte '@' ∉ front) (noScheme : ¬ ascii "://" <:+: front) :
    redactURL (front ++ byte '@' :: rest) = front ++ byte '@' :: rest := by
  unfold redactURL
  rw [scanUserinfo noSign noScheme]

theorem lastScheme (front : Bytes) : ¬ ascii "://" <:+: front ∨
    ∃ lead cred, front = lead ++ (ascii "://" ++ cred) ∧ ¬ ascii "://" <:+: cred := by
  induction front with
  | nil => exact .inl (fun within => absurd (List.infix_nil.mp within) (by decide))
  | cons c front ih =>
    rcases ih with none_ | ⟨lead,cred,rfl,last⟩
    · by_cases here : ascii "://" <+: c::front
      · obtain ⟨cred,same⟩ := here
        refine .inr ⟨[],cred,same.symm,fun later => none_ ?_⟩
        have tail : front = ascii "//" ++ cred := (List.cons.inj same).2.symm
        rw [tail]
        exact later.trans (List.suffix_append _ _).isInfix
      · refine .inl (fun within => ?_)
        rcases List.infix_cons_iff.mp within with first | later
        · exact here first
        · exact none_ later
    · exact .inr ⟨c::lead,cred,rfl,last⟩

end

def Untouched (u : Bytes) : Prop :=
  ∀ lead cred after, u = url lead cred after → byte '@' ∉ lead → byte '@' ∉ cred → ¬ ascii "://" <:+: cred →
    cred = [] ∨ cred = ascii "***"

theorem unchangedIff (u : Bytes) : redactURL u = u ↔ Untouched u := by
  constructor
  · rintro same lead cred after rfl before noSign noScheme
    rw [redactLast before noSign noScheme] at same
    split at same
    · exact .inl ‹_›
    · have middle := List.append_cancel_left (List.append_cancel_left same)
      exact .inr (List.append_cancel_right middle).symm
  · intro untouched
    by_cases present : byte '@' ∈ u
    · obtain ⟨front,rest,rfl,noSign⟩ := List.eq_append_cons_of_mem present
      rcases lastScheme front with none_ | ⟨lead,cred,rfl,last⟩
      · exact redactSchemeless noSign none_
      · simp only [List.mem_append,not_or] at noSign
        have shape : (lead ++ (ascii "://" ++ cred)) ++ byte '@' :: rest = url lead cred rest := by
          rw [url,List.append_assoc,List.append_assoc]
        rw [shape] at untouched ⊢
        rw [redactLast noSign.1 noSign.2.2 last]
        rcases untouched lead cred rest rfl noSign.1 noSign.2.2 last with rfl | rfl
        · exact if_pos rfl
        · exact if_neg (by decide +kernel)
    · have none_ := @scanNoSign 0 none u present
      unfold redactURL
      split
      · rename_i found
        rw [found] at none_
        contradiction
      · rfl

def Clean (userinfo : Bytes) : Prop := userinfo ≠ [] ∧ byte '@' ∉ userinfo

theorem redactedIff {scheme userinfo location : Bytes} (named : ∀ c ∈ scheme, schemeByte c = true)
    (accepted : ∀ c ∈ userinfo, userinfoByte c = true) :
    redactURL (url scheme userinfo location) = redacted scheme location ↔ Clean userinfo := by
  have before : byte '@' ∉ scheme := fun mem => absurd (named _ mem) (by decide)
  have noSlash : byte '/' ∉ userinfo := fun mem => absurd (accepted _ mem) (by decide)
  have noScheme {part : Bytes} (inside : ∀ c ∈ part, c ∈ userinfo) : ¬ ascii "://" <:+: part := fun within =>
    noSlash (inside _ (within.subset (by decide)))
  constructor
  · intro same
    have noSign : byte '@' ∉ userinfo := by
      intro mem
      -- what follows the first '@' stays in the text
      obtain ⟨first,later,rfl,clear⟩ := List.eq_append_cons_of_mem mem
      have split : url scheme (first ++ byte '@' :: later) location =
          url scheme first (later ++ byte '@' :: location) := by simp only [url,List.append_assoc,List.cons_append]
      rw [split,redactLast before clear (noScheme fun _ => List.mem_append_left _)] at same
      split at same
      · rename_i empty
        subst empty
        have heads := List.append_cancel_left (List.append_cancel_left same)
        exact absurd (List.cons.inj heads).1 (by decide)
      · have lengths := congrArg List.length same
        simp [redacted] at lengths
        omega
    refine ⟨?_,noSign⟩
    rintro rfl
    rw [redactLast before noSign (noScheme fun _ => id),if_pos rfl] at same
    have lengths := congrArg List.length same
    simp [url,redacted,ascii] at lengths
  · rintro ⟨some,noSign⟩
    rw [redactLast before noSign (noScheme fun _ => id),if_neg some]

/-- Two runs that differ in the credentials only give the redacted URL if and only if neither userinfo is empty or has
an '@' in it, and any text is returned as it is if and only if it is untouched. -/
theorem redactionHidesIff {scheme location first second : Bytes} (named : ∀ c ∈ scheme, schemeByte c = true)
    (accepted : ∀ c ∈ first, userinfoByte c = true) (accepted' : ∀ c ∈ second, userinfoByte c = true) :
    (redactURL (url scheme first location) = redacted scheme location ∧
      redactURL (url scheme second location) = redacted scheme location ↔ Clean first ∧ Clean second) ∧
    ∀ u, redactURL u = u ↔ Untouched u :=
  ⟨and_congr (redactedIff named accepted) (redactedIff named accepted'),unchangedIff⟩

theorem guestHidden : redactURL (url (ascii "amqp") (ascii "guest:guest") (ascii "rabbitmq:5672/")) =
      redacted (ascii "amqp") (ascii "rabbitmq:5672/") ∧
    redactURL (url (ascii "amqp") (ascii "user:pass") (ascii "rabbitmq:5672/")) =
      redacted (ascii "amqp") (ascii "rabbitmq:5672/") := by
  have hides := @redactionHidesIff (ascii "amqp") (ascii "rabbitmq:5672/") (ascii "guest:guest") (ascii "user:pass")
    (by decide +kernel) (by decide +kernel) (by decide +kernel)
  exact hides.1.mpr ⟨⟨by decide +kernel,by decide +kernel⟩,by decide +kernel,by decide +kernel⟩

theorem passwordShown : ¬ ∀ scheme host path first second : Bytes,
    (∀ c ∈ scheme, schemeByte c = true) → byte '@' ∉ host → (∀ c ∈ first, userinfoByte c = true) →
    (∀ c ∈ second, userinfoByte c = true) →
    redactURL (url scheme first (host ++ byte '/' :: path)) = redacted scheme (host ++ byte '/' :: path) ∧
    redactURL (url scheme second (host ++ byte '/' :: path)) = redacted scheme (host ++ byte '/' :: path) := by
  intro always
  have same := (always (ascii "amqp") (ascii "rabbitmq:5672") [] (ascii "user:p@ss") (ascii "user:pass")
    (by decide +kernel) (by decide +kernel) (by decide +kernel) (by decide +kernel)).1
  exact absurd same (by decide +kernel)

example : redactURL (ascii "amqp://rabbitmq/a@b") = ascii "amqp://***@b" := by decide +kernel

end Notifyd.UrlRedaction
