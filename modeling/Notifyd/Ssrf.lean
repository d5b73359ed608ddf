import Mathlib.Algebra.Ring.Nat
import Mathlib.Tactic.Common

/-! The dial guard of `internal/provider/ssrf.go`. The tests of net/netip are those of its documentation: the
prefixes hold for no IPv4-mapped and for no zoned address, the comparison with the unspecified addresses is
one of whole values, and the loopback and link-local tests look at the unmapped address. -/
namespace Notifyd.Ssrf

inductive Addr where
  | v4 (bits : Fin (2^32))
  | v6 (bits : Fin (2^128)) (zone : String)
  deriving DecidableEq, Repr

def ipv4 (a b c d : Fin 256) : Addr := .v4 ⟨((a.val*256 + b)*256 + c)*256 + d,by omega⟩

def Addr.unmap : Addr → Addr
  | .v4 n => .v4 n
  | .v6 n zone => if n.val/2^32 = 0xffff then .v4 ⟨n.val%2^32,Nat.mod_lt _ (by decide)⟩ else .v6 n zone

def loopback : Addr → Bool
  | .v4 n => n.val/2^24 == 127
  | .v6 n _ => n.val == 1

def linkLocalUnicast : Addr → Bool
  | .v4 n => n.val/2^16 == 169*256 + 254
  | .v6 n _ => n.val/2^118 == 0xfe80/2^6

def linkLocalMulticast : Addr → Bool
  | .v4 n => n.val/2^8 == 224*256*256
  | .v6 n _ => n.val/2^120 == 0xff && n.val/2^112%16 == 2

def Addr.isLoopback (ip : Addr) : Bool := loopback ip.unmap

def Addr.isLinkLocalUnicast (ip : Addr) : Bool := linkLocalUnicast ip.unmap

def Addr.isLinkLocalMulticast (ip : Addr) : Bool := linkLocalMulticast ip.unmap

def Addr.isUnspecified (ip : Addr) : Bool := ip == .v4 0 || ip == .v6 0 ""

structure Prefix where
  ip : Addr
  bits : Nat

def Prefix.contains (p : Prefix) : Addr → Bool
  | .v4 n => match p.ip with
    | .v4 m => n.val/2^(32 - p.bits) == m.val/2^(32 - p.bits)
    | .v6 _ _ => false
  | .v6 n zone => match p.ip with
    | .v4 _ => false
    | .v6 m _ => zone == "" && n.val/2^(128 - p.bits) == m.val/2^(128 - p.bits)

def metadata : Addr := ipv4 169 254 169 254

def rfc1918 : List Prefix := [⟨ipv4 10 0 0 0,8⟩,⟨ipv4 172 16 0 0,12⟩,⟨ipv4 192 168 0 0,16⟩]

def cgnat : Prefix := ⟨ipv4 100 64 0 0,10⟩

def uniqueLocal : Prefix := ⟨.v6 ⟨0xfc00*2^112,by decide⟩ "",7⟩

def denyZone (ip : Addr) : Option String :=
  if ip = metadata then some "metadata"
  else if ip.isLoopback then some "loopback"
  else if ip.isLinkLocalUnicast || ip.isLinkLocalMulticast then some "link-local"
  else if ip.isUnspecified then some "unspecified"
  else if rfc1918.any (fun p => p.contains ip) then some "rfc1918"
  else if cgnat.contains ip then some "cgnat"
  else if uniqueLocal.contains ip then some "unique-local-v6"
  else none

structure SsrfError where
  addr : Addr
  zone : String
  deriving DecidableEq, Repr

/- An address that does not split or does not parse is let through. -/
def ssrfControl (splitHostPort : String → Option (String × String)) (parseAddr : String → Option Addr)
    (address : String) : Option SsrfError := do
  let (host,_) ← splitHostPort address
  let ip ← parseAddr host
  let zone ← denyZone ip
  some ⟨ip,zone⟩

inductive Host where
  | v4 (n : Nat)
  | v6 (n : Nat)

def Addr.host (ip : Addr) : Host :=
  match ip.unmap with
  | .v4 n => .v4 n
  | .v6 n _ => .v6 n

def span (first last n : Nat) : Prop := first ≤ n ∧ n ≤ last

def Private (n : Nat) : Prop :=
  span (10*2^24) (11*2^24 - 1) n ∨ span (172*2^24 + 16*2^16) (172*2^24 + 32*2^16 - 1) n ∨
    span (192*2^24 + 168*2^16) (192*2^24 + 169*2^16 - 1) n

def Shared (n : Nat) : Prop := span (100*2^24 + 64*2^16) (100*2^24 + 128*2^16 - 1) n

def UniqueLocal (n : Nat) : Prop := span (0xfc00*2^112) (0xfe00*2^112 - 1) n

def NearV4 (n : Nat) : Prop :=
  span (127*2^24) (128*2^24 - 1) n ∨ span (169*2^24 + 254*2^16) (169*2^24 + 255*2^16 - 1) n ∨
    span (224*2^24) (224*2^24 + 255) n

def NearV6 (n : Nat) : Prop :=
  n = 1 ∨ span (0xfe80*2^112) (0xfec0*2^112 - 1) n ∨
    (span (0xff00*2^112) (0x10000*2^112 - 1) n ∧ n/2^112%16 = 2)

def Denied : Host → Prop
  | .v4 n => NearV4 n ∨ n = 0 ∨ Private n ∨ Shared n
  | .v6 n => NearV6 n ∨ n = 0 ∨ UniqueLocal n

/- An IPv4-mapped form of 0.0.0.0 or of an address of one of the prefixes, or a zoned form of :: or of a
unique-local address. -/
def Escapes : Addr → Prop
  | .v4 _ => False
  | .v6 n zone => if n.val/2^32 = 0xffff then n.val%2^32 = 0 ∨ Private (n.val%2^32) ∨ Shared (n.val%2^32)
      else zone ≠ "" ∧ (n.val = 0 ∨ UniqueLocal n.val)

theorem unmapMapped {n : Fin (2^128)} {zone : String} (mapped : n.val/2^32 = 0xffff) :
    (Addr.v6 n zone).unmap = .v4 ⟨n.val%2^32,Nat.mod_lt _ (by decide)⟩ := if_pos mapped

theorem unmapPlain {n : Fin (2^128)} {zone : String} (plain : n.val/2^32 ≠ 0xffff) :
    (Addr.v6 n zone).unmap = .v6 n zone := if_neg plain

theorem denyZoneSome (ip : Addr) : (denyZone ip).isSome = true ↔
    ip = metadata ∨ (ip.isLoopback = true ∨ (ip.isLinkLocalUnicast || ip.isLinkLocalMulticast) = true) ∨
      ip.isUnspecified = true ∨ rfc1918.any (fun p => p.contains ip) = true ∨ cgnat.contains ip = true ∨
      uniqueLocal.contains ip = true := by
  unfold denyZone
  split_ifs <;> simp_all

theorem divSpan (n m k : Nat) : n/2^k = m/2^k ↔ span (m/2^k*2^k) (m/2^k*2^k + (2^k - 1)) n := by
  have positive : 0 < 2^k := Nat.two_pow_pos k
  rw [Nat.div_eq_iff positive,span,Nat.add_sub_assoc positive]

theorem rfc1918Contains (n : Fin (2^32)) : rfc1918.any (fun p => p.contains (.v4 n)) = true ↔ Private n.val := by
  simp only [rfc1918,List.any_cons,List.any_nil,Bool.or_false,Bool.or_eq_true,Prefix.contains,ipv4,beq_iff_eq,divSpan]
  exact Iff.rfl

theorem cgnatContains (n : Fin (2^32)) : cgnat.contains (.v4 n) = true ↔ Shared n.val := by
  simp only [cgnat,Prefix.contains,ipv4,beq_iff_eq,divSpan]
  exact Iff.rfl

theorem uniqueLocalContains (n : Fin (2^128)) (zone : String) :
    uniqueLocal.contains (.v6 n zone) = true ↔ zone = "" ∧ UniqueLocal n.val := by
  simp only [uniqueLocal,Prefix.contains,Bool.and_eq_true,beq_iff_eq,divSpan]
  exact Iff.rfl

theorem v4Near {ip : Addr} {n : Fin (2^32)} (plain : ip.unmap = .v4 n) :
    (ip.isLoopback = true ∨ (ip.isLinkLocalUnicast || ip.isLinkLocalMulticast) = true) ↔ NearV4 n := by
  simp only [Addr.isLoopback,Addr.isLinkLocalUnicast,Addr.isLinkLocalMulticast,plain,loopback,linkLocalUnicast,
    linkLocalMulticast,Bool.or_eq_true,beq_iff_eq,NearV4,span]
  omega

theorem v6Near {ip : Addr} {n : Fin (2^128)} {zone : String} (plain : ip.unmap = .v6 n zone) :
    (ip.isLoopback = true ∨ (ip.isLinkLocalUnicast || ip.isLinkLocalMulticast) = true) ↔ NearV6 n := by
  simp only [Addr.isLoopback,Addr.isLinkLocalUnicast,Addr.isLinkLocalMulticast,plain,loopback,linkLocalUnicast,
    linkLocalMulticast,Bool.or_eq_true,Bool.and_eq_true,beq_iff_eq,NearV6,span]
  omega

theorem unspecifiedV6 (n : Fin (2^128)) (zone : String) :
    Addr.isUnspecified (.v6 n zone) = true ↔ zone = "" ∧ n.val = 0 := by
  simp only [Addr.isUnspecified,Bool.or_eq_true,beq_iff_eq,Addr.v6.injEq,reduceCtorEq,false_or]
  rw [and_comm,Fin.ext_iff]
  exact Iff.rfl

theorem v4Exact (n : Fin (2^32)) : (denyZone (.v4 n)).isSome = true ↔ Denied (Addr.v4 n).host := by
  have any : Addr.isUnspecified (.v4 n) = true ↔ n.val = 0 := by
    simp only [Addr.isUnspecified,Bool.or_eq_true,beq_iff_eq,Addr.v4.injEq,reduceCtorEq,or_false]
    exact Fin.ext_iff
  have six : uniqueLocal.contains (.v4 n) = false := rfl
  have cloud : Addr.v4 n = metadata → NearV4 n := by
    intro same
    cases same
    exact .inr (.inl ⟨by decide,by decide⟩)
  rw [denyZoneSome,v4Near rfl,any,rfc1918Contains,cgnatContains,six,← or_assoc,or_iff_right_of_imp cloud]
  simp only [Bool.false_eq_true,or_false]
  exact Iff.rfl

theorem v6Some (n : Fin (2^128)) (zone : String) : (denyZone (.v6 n zone)).isSome = true ↔
    (Addr.isLoopback (.v6 n zone) = true ∨
      (Addr.isLinkLocalUnicast (.v6 n zone) || Addr.isLinkLocalMulticast (.v6 n zone)) = true) ∨
      zone = "" ∧ (n.val = 0 ∨ UniqueLocal n.val) := by
  have cloud : ¬ Addr.v6 n zone = metadata := by
    intro same
    cases same
  have own : rfc1918.any (fun p => p.contains (.v6 n zone)) = false := rfl
  have shared : cgnat.contains (.v6 n zone) = false := rfl
  rw [denyZoneSome,unspecifiedV6,own,shared,uniqueLocalContains,and_or_left]
  simp only [cloud,Bool.false_eq_true,false_or]

theorem mappedSome {n : Fin (2^128)} {zone : String} (mapped : n.val/2^32 = 0xffff) :
    (denyZone (.v6 n zone)).isSome = true ↔ NearV4 (n.val%2^32) := by
  have six : ¬ (n.val = 0 ∨ UniqueLocal n.val) := by
    rw [UniqueLocal,span]
    omega
  rw [v6Some,v4Near (unmapMapped mapped)]
  simp only [six,and_false,or_false]

theorem plainSome {n : Fin (2^128)} {zone : String} (plain : n.val/2^32 ≠ 0xffff) :
    (denyZone (.v6 n zone)).isSome = true ↔ NearV6 n.val ∨ zone = "" ∧ (n.val = 0 ∨ UniqueLocal n.val) := by
  rw [v6Some,v6Near (unmapPlain plain)]

theorem deniedSplit (ip : Addr) : Denied ip.host ↔ (denyZone ip).isSome = true ∨ Escapes ip := by
  cases ip with
  | v4 n =>
    rw [v4Exact]
    exact (or_iff_left id).symm
  | v6 n zone =>
    by_cases mapped : n.val/2^32 = 0xffff
    · rw [mappedSome mapped,Addr.host,unmapMapped mapped,Escapes,if_pos mapped]
      exact Iff.rfl
    · rw [plainSome mapped,Addr.host,unmapPlain mapped,Escapes,if_neg mapped]
      by_cases bare : zone = ""
      · simp only [bare,true_and,ne_eq,not_true,false_and,or_false]
        exact Iff.rfl
      · simp only [bare,false_and,or_false,ne_eq,not_false_eq_true,true_and]
        exact Iff.rfl

theorem escapesUnseen {ip : Addr} (escapes : Escapes ip) : (denyZone ip).isSome = false := by
  rw [Bool.eq_false_iff]
  cases ip with
  | v4 n => exact escapes.elim
  | v6 n zone =>
    by_cases mapped : n.val/2^32 = 0xffff
    · rw [Escapes,if_pos mapped] at escapes
      rw [ne_eq,mappedSome mapped]
      revert escapes
      simp only [Private,Shared,NearV4,span]
      omega
    · rw [Escapes,if_neg mapped] at escapes
      obtain ⟨zoned,far⟩ := escapes
      have near : n.val = 0 ∨ UniqueLocal n.val → ¬ NearV6 n.val := by
        simp only [UniqueLocal,NearV6,span]
        omega
      rw [ne_eq,plainSome mapped]
      rintro (close | ⟨bare,_⟩)
      · exact near far close
      · exact zoned bare

theorem denyZoneExact (ip : Addr) : ((denyZone ip).isSome = true ↔ Denied ip.host) ↔ ¬ Escapes ip := by
  rw [deniedSplit]
  constructor
  · intro same escapes
    have blocked := same.mpr (.inr escapes)
    rw [escapesUnseen escapes] at blocked
    contradiction
  · intro outside
    exact (or_iff_left outside).symm

def mappedTen : Addr := .v6 ⟨0xffff*2^32 + 10*2^24 + 1,by decide⟩ ""

theorem mappedTenDialled : ¬ ∀ ip : Addr, (denyZone ip).isSome = true ↔ Denied ip.host := by
  intro everywhere
  have denied : Denied mappedTen.host := .inr (.inr (.inl (.inl ⟨by decide,by decide⟩)))
  have blocked := (everywhere mappedTen).mpr denied
  revert blocked
  decide +kernel

theorem deniedDialled {splitHostPort : String → Option (String × String)} {parseAddr : String → Option Addr}
    {address host port : String} {ip : Addr} (splits : splitHostPort address = some (host,port))
    (parses : parseAddr host = some ip) :
    ssrfControl splitHostPort parseAddr address = none ∧ Denied ip.host ↔ Escapes ip := by
  have refuses : ssrfControl splitHostPort parseAddr address = none ↔ (denyZone ip).isSome = false := by
    simp only [ssrfControl,splits,parses,bind,Option.bind]
    cases denyZone ip <;> simp
  rw [refuses,deniedSplit]
  constructor
  · rintro ⟨open_,blocked | escapes⟩
    · rw [open_] at blocked
      contradiction
    · exact escapes
  · exact fun escapes => ⟨escapesUnseen escapes,.inr escapes⟩

end Notifyd.Ssrf
