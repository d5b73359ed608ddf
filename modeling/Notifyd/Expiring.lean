import Mathlib.Logic.Function.Basic

/-! A key-value cache whose entries expire: SET with a time to live, SET NX, GET and DEL. An entry
is read only before its expiry; an expired one counts as absent. -/
namespace Notifyd.Expiring

structure Entry (ν : Type) where
  value : ν
  expiresAt : Nat
  deriving DecidableEq, Repr

abbrev Cache (κ ν : Type) := κ → Option (Entry ν)

variable {κ ν : Type} [DecidableEq κ]

def get (now : Nat) (k : κ) (c : Cache κ ν) : Option ν :=
  ((c k).filter (fun e => now < e.expiresAt)).map Entry.value

def set (now ttl : Nat) (k : κ) (v : ν) (c : Cache κ ν) : Cache κ ν :=
  Function.update c k (some ⟨v,now + ttl⟩)

def del (k : κ) (c : Cache κ ν) : Cache κ ν := Function.update c k none

def setNX (now ttl : Nat) (k : κ) (v : ν) (c : Cache κ ν) : Option (Cache κ ν) :=
  if (get now k c).isSome then none else some (set now ttl k v c)

omit [DecidableEq κ] in
theorem getSome {now k v} {c : Cache κ ν} :
    get now k c = some v ↔ ∃ e, c k = some e ∧ now < e.expiresAt ∧ e.value = v := by
  simp only [get,Option.map_eq_some_iff,Option.filter_eq_some_iff,decide_eq_true_eq,and_assoc]

omit [DecidableEq κ] in
theorem getLive {now k e} {c : Cache κ ν} (stored : c k = some e) (live : now < e.expiresAt) :
    get now k c = some e.value :=
  getSome.mpr ⟨e,stored,live,rfl⟩

omit [DecidableEq κ] in
theorem getAbsent {now k} {c : Cache κ ν} (absent : c k = none) : get now k c = none := by
  simp [get,absent]

theorem setSame {now ttl k v} {c : Cache κ ν} : set now ttl k v c k = some ⟨v,now + ttl⟩ :=
  Function.update_self ..

theorem setOther {now ttl k j v} {c : Cache κ ν} (other : j ≠ k) : set now ttl k v c j = c j :=
  Function.update_of_ne other ..

theorem delSame {k} {c : Cache κ ν} : del k c k = none := Function.update_self ..

theorem delOther {k j} {c : Cache κ ν} (other : j ≠ k) : del k c j = c j :=
  Function.update_of_ne other ..

theorem setNXHeld {now ttl k v w} {c : Cache κ ν} (held : get now k c = some w) :
    setNX now ttl k v c = none := by
  simp [setNX,held]

theorem setNXSome {now ttl k v} {c d : Cache κ ν} (ok : setNX now ttl k v c = some d) :
    get now k c = none ∧ d = set now ttl k v c := by
  unfold setNX at ok
  split at ok <;> try contradiction
  rename_i free
  exact ⟨by simpa using free,(Option.some.inj ok).symm⟩

end Notifyd.Expiring
