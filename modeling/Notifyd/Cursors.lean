import Notifyd.Uuids
import Notifyd.JsonText
import Notifyd.Calendar
import Notifyd.Utf8
import Notifyd.Base64

/-! The cursor of GET /v1/notifications: JSON of the last row's created_at and id, in base64url. -/
namespace Notifyd.Cursors
open Numerals Uuids JsonText Calendar

/- `ts` is in nanoseconds since the zero time of Go, 0001-01-01T00:00:00Z. -/
structure Cursor where
  ts : Int
  id : UUID
  deriving DecidableEq, Repr

def zero : Cursor := ⟨0,0⟩

def encode (ts : Stamp) (id : UUID) : Text :=
  Base64.encode (Utf8.bytes (render goStyle (.obj [("ts".toList,.str ts.rfc3339),("id".toList,.str (Uuids.string id))])))

/- encoding/json also takes a key that differs from the field's name by simple case folding. -/
def foldChar (c : Char) : Char := if c = 'ſ' then 's' else c.toLower

def names (key : Text) (field : String) : Bool := key.map foldChar == field.toList

section
variable [Parser]

def member (c : Cursor) (field : Text × Json) : Option Cursor :=
  if names field.1 "ts" then match field.2 with
    | .null => some c
    | .str s => (parseRFC3339 s).map (fun ts => {c with ts := ts})
    | _ => none
  else if names field.1 "id" then match field.2 with
    | .null => some c
    | .str s => (Uuids.parse s).map (fun id => {c with id := id})
    | _ => none
  else some c

def members (c : Cursor) : List (Text × Json) → Option Cursor
  | [] => some c
  | field::rest => (member c field).bind (fun c => members c rest)

def unmarshal : Json → Option Cursor
  | .null => some zero
  | .obj fields => members zero fields
  | _ => none

def decodeCursor (s : Text) : Option Cursor :=
  if s = [] then some zero else do
    let raw ← Base64.decode s
    let v ← JsonText.parse (Utf8.text raw)
    unmarshal v

end

theorem encodeNonempty (ts : Stamp) (id : UUID) : encode ts id ≠ [] := by
  intro empty
  have back := Base64.decodeEncode (Utf8.bytes
    (render goStyle (.obj [("ts".toList,.str ts.rfc3339),("id".toList,.str (Uuids.string id))])))
  have none : Utf8.bytes (render goStyle (.obj [("ts".toList,.str ts.rfc3339),("id".toList,.str (Uuids.string id))])) = [] := by
    rw [encode] at empty
    rw [empty] at back
    exact (Option.some.inj back).symm
  have text := congrArg Utf8.text none
  rw [Utf8.textBytes] at text
  cases text

theorem decodeEncode [Parser] (ts : Stamp) (id : UUID) : decodeCursor (encode ts id) = some ⟨ts.micros*1000,id⟩ := by
  rw [decodeCursor,if_neg (encodeNonempty ts id),encode,Base64.decodeEncode]
  simp only [Option.bind_eq_bind,Option.bind_some,Utf8.textBytes,parseRender goFaithful]
  have stamp : member zero ("ts".toList,.str ts.rfc3339) = some ⟨ts.micros*1000,0⟩ := by
    have named : names "ts".toList "ts" = true := by decide
    simp only [member,named,if_true,parseText,Option.map_some,zero]
  have uuid : member ⟨ts.micros*1000,0⟩ ("id".toList,.str (Uuids.string id)) = some ⟨ts.micros*1000,id⟩ := by
    have other : names "id".toList "ts" = false := by decide
    have named : names "id".toList "id" = true := by decide
    simp only [member,other,named,if_true,Bool.false_eq_true,if_false,parseString,Option.map_some]
  simp only [unmarshal,members,stamp,uuid,Option.bind_some]

end Notifyd.Cursors
