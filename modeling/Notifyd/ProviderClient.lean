import Notifyd.Pipeline
import Notifyd.Scanning
import Notifyd.Utf8

/-! The provider client from the answer of the HTTP library on: the classification of responses and of
transport errors, the Retry-After header and the text of a `SendError`. `http.ParseTime` and
`strconv.IsPrint` are parameters. -/
namespace Notifyd.ProviderClient
open Numerals Scanning Pipeline

abbrev Duration := Int64

def second : Duration := 1000000000

structure Library where
  parseTime : Text → Option Int
  isPrint : Char → Bool

variable (lib : Library)

def timeUntil (now t : Int) : Duration :=
  if t - now < Int64.minValue.toInt then Int64.minValue
  else if Int64.maxValue.toInt < t - now then Int64.maxValue
  else Int64.ofInt (t - now)

def parseDate (now : Int) (v : Text) : Duration :=
  match lib.parseTime v with
  | some t => if timeUntil now t < 0 then 0 else timeUntil now t
  | none => 0

def headerValue (header : List UInt8) : Text := Hub.trimSpace (Utf8.text header)

def parseRetryAfter (now : Int) (header : List UInt8) : Duration :=
  let v := headerValue header
  if v = [] then 0
  else match scanInt v with
    | some secs => if 0 < secs then Int64.ofInt secs * second else parseDate lib now v
    | none => parseDate lib now v

structure Response where
  status : Nat
  retryAfter : List UInt8
  body : List UInt8
  deriving DecidableEq, Repr

inductive Cause where
  | deadlineExceeded | canceled | ssrf | other
  deriving DecidableEq, Repr

inductive Answer where
  | unsent (text : String)
  | transport (cause : Cause) (text : String)
  | response (r : Response)
  deriving DecidableEq, Repr

structure SendError where
  kind : ErrorKind
  httpStatus : Nat
  retryAfter : Duration
  underlying : Option String
  body : List UInt8
  deriving DecidableEq

def classifyTransportError : Cause → ErrorKind
  | .deadlineExceeded | .canceled => .timeout
  | .ssrf => .ssrfBlocked
  | .other => .network

def classify (now : Int) (r : Response) : Option SendError :=
  if 200 ≤ r.status ∧ r.status < 300 then none
  else if r.status = 408 ∨ r.status = 429 then
    some ⟨if r.status = 408 then .timeout else .rateLimited,r.status,parseRetryAfter lib now r.retryAfter,none,r.body⟩
  else if 500 ≤ r.status then some ⟨.server,r.status,0,none,r.body⟩
  else some ⟨.client,r.status,0,none,r.body⟩

def kindString : ErrorKind → Text
  | .network => "network".toList
  | .timeout => "timeout".toList
  | .ssrfBlocked => "ssrf-blocked".toList
  | .server => "server-5xx".toList
  | .rateLimited => "rate-limited".toList
  | .client => "client-4xx".toList
  | .unknown => "unknown".toList

def hex (width n : Nat) : Text := numeral 16 width n

def escaped (c : Char) : Text :=
  if c = '"' ∨ c = '\\' then ['\\',c]
  else if lib.isPrint c then [c]
  else match c.toNat with
    | 7 => ['\\', 'a']
    | 8 => ['\\', 'b']
    | 12 => ['\\', 'f']
    | 10 => ['\\', 'n']
    | 13 => ['\\', 'r']
    | 9 => ['\\', 't']
    | 11 => ['\\', 'v']
    | n =>
      if n < 32 ∨ n = 127 then '\\' :: 'x' :: hex 2 n
      else if n < 0x10000 then '\\' :: 'u' :: hex 4 n
      else '\\' :: 'U' :: hex 8 n

/- A byte that is part of no character is written by its value. -/
def quote (bs : List UInt8) : Text :=
  let written : Char ⊕ UInt8 → Text
    | .inl c => escaped lib c
    | .inr b => '\\' :: 'x' :: hex 2 b.toNat
  '"' :: (Utf8.units bs.length bs).flatMap written ++ ['"']

theorem quoteText (t : Text) : quote lib (Utf8.bytes t) = '"' :: t.flatMap (escaped lib) ++ ['"'] := by
  simp only [quote,Utf8.unitsBytes t (Nat.le_refl _),List.flatMap_map]

def SendError.error (e : SendError) : Text :=
  "send (".toList ++ kindString e.kind ++ ", status=".toList ++ Nat.toDigits 10 e.httpStatus ++
    match e.underlying with
    | some text => "): ".toList ++ text.toList
    | none => ", body=".toList ++ quote lib e.body ++ ")".toList

def SendError.callError (e : SendError) : CallError := ⟨some e.kind,e.httpStatus,String.ofList (e.error lib)⟩

def send (now : Int) : Answer → SendReply
  | .unsent text => .failed (SendError.callError lib ⟨.unknown,0,0,some text,[]⟩)
  | .transport cause text => .failed (SendError.callError lib ⟨classifyTransportError cause,0,0,some text,[]⟩)
  | .response r => match classify lib now r with
    | some e => .failed (e.callError lib)
    | none => .sent r.status

def decimal (n : Nat) : List UInt8 := Utf8.bytes (Nat.toDigits 10 n)

def maxSeconds : Nat := 9223372036

variable {lib} {now : Int}

theorem dateNonneg (v : Text) : 0 ≤ parseDate lib now v := by
  unfold parseDate
  split
  · split
    · decide
    · rename_i future
      exact Int64.not_lt.mp future
  · decide

theorem secondsValue {secs : Int} (positive : 0 < secs) (fits : secs ≤ maxSeconds) :
    (Int64.ofInt secs * second).toInt = secs*1000000000 := by
  have below : secs ≤ 9223372036 := fits
  have factor : second.toInt = 1000000000 := rfl
  rw [Int64.toInt_mul,Int64.toInt_ofInt_of_le (by omega) (by omega),factor]
  exact Int.bmod_eq_of_le (by omega) (by omega)

theorem decimalValue (n : Nat) : headerValue (decimal n) = Nat.toDigits 10 n := by
  rw [headerValue,decimal,Utf8.textBytes,trimDecimal]

theorem parseDecimal {n : Nat} (positive : 0 < n) (fits : n < 2^63) :
    parseRetryAfter lib now (decimal n) = Int64.ofInt n * second := by
  have some : (0 : Int) < n := by omega
  simp only [parseRetryAfter,decimalValue,scanDecimal fits]
  rw [if_neg (by simp),if_pos some]

theorem parseNonneg {header : List UInt8}
    (fits : ∀ secs, scanInt (headerValue header) = some secs → secs ≤ maxSeconds) :
    0 ≤ parseRetryAfter lib now header := by
  simp only [parseRetryAfter]
  split
  · decide
  cases scanned : scanInt (headerValue header) with
  | none => exact dateNonneg _
  | some secs =>
    simp only
    split
    · rename_i positive
      have value := secondsValue positive (fits secs scanned)
      rw [Int64.le_iff_toInt_le,value]
      exact Int.mul_nonneg (Int.le_of_lt positive) (by decide)
    · exact dateNonneg _

theorem parseMono {later : Int} {a b : Nat} (positive : 0 < a) (ordered : a ≤ b) (fits : b ≤ maxSeconds) :
    parseRetryAfter lib now (decimal a) ≤ parseRetryAfter lib later (decimal b) := by
  have below : b ≤ 9223372036 := fits
  rw [parseDecimal positive (by omega),parseDecimal (by omega) (by omega),Int64.le_iff_toInt_le]
  rw [secondsValue (by omega) (by omega),secondsValue (by omega) (by omega)]
  omega

theorem overflowNegative : parseRetryAfter lib now (decimal (maxSeconds + 1)) < 0 := by
  rw [parseDecimal (by decide) (by decide)]
  decide

def Orderly (lib : Library) (limit : Nat) : Prop :=
  (∀ now header, (∀ secs, scanInt (headerValue header) = some secs → secs ≤ limit) →
    0 ≤ parseRetryAfter lib now header) ∧
  ∀ now later a b, 0 < a → a ≤ b → b ≤ limit → b < 2^63 →
    parseRetryAfter lib now (decimal a) ≤ parseRetryAfter lib later (decimal b)

theorem delaysOrderlyIff (lib : Library) (limit : Nat) : Orderly lib limit ↔ limit ≤ maxSeconds := by
  constructor
  · intro orderly
    apply Nat.le_of_not_lt
    intro large
    have fits : ∀ secs, scanInt (headerValue (decimal (maxSeconds + 1))) = some secs → secs ≤ limit := by
      intro secs scanned
      rw [decimalValue,scanDecimal (by decide)] at scanned
      cases Option.some.inj scanned
      exact Int.ofNat_le.mpr large
    exact Int64.not_le.mpr overflowNegative (orderly.1 0 _ fits)
  · intro small
    refine ⟨?_,?_⟩
    · intro now header fits
      exact parseNonneg (fun secs scanned => Int.le_trans (fits secs scanned) (Int.ofNat_le.mpr small))
    · intro now later a b positive ordered fits _
      exact parseMono positive ordered (fits.trans small)

def plainLibrary : Library := ⟨fun _ => none,fun c => decide (32 ≤ c.toNat ∧ c.toNat ≠ 127)⟩

theorem longDelayNegative : ¬ ∀ lib : Library, (∀ now header, 0 ≤ parseRetryAfter lib now header) ∧
    ∀ now later a b, 0 < a → a ≤ b → b < 2^63 →
      parseRetryAfter lib now (decimal a) ≤ parseRetryAfter lib later (decimal b) := by
  intro always
  have negative : parseRetryAfter plainLibrary 0 (decimal (maxSeconds + 1)) < 0 := overflowNegative
  exact Int64.not_le.mpr negative ((always _).1 0 _)

end Notifyd.ProviderClient
