import Notifyd.Outbox
import Notifyd.ProviderClient

/-! The texts of failures as they are stored. `truncate` cuts bytes, and what it leaves is a text only if a
character ends at the cut; otherwise the statement that carries it is refused and its row is not written. -/
namespace Notifyd.Truncation
open Numerals Domain Store Calls ProviderClient

def Fits (n : Nat) (text : String) : Prop :=
  text.utf8ByteSize ≤ n ∨ ∃ head tail, text = head ++ tail ∧ head.utf8ByteSize = n

def Kept (n : Nat) (text : String) : Prop :=
  ∃ t, truncate text n = some t ∧ t.toList <+: text.toList ∧ t.utf8ByteSize ≤ n ∧ (text ≠ "" → t ≠ "")

def Encoded (value : Option String) : Prop := ∃ t, value = some t ∧ '\x00' ∉ t.toList

section
variable {n : Nat} {text t : String}

theorem fromBytes {bytes : ByteArray} : String.fromUTF8? bytes = some t ↔ t.toByteArray = bytes := by
  unfold String.fromUTF8?
  split
  · rename_i valid
    rw [Option.some.injEq,← String.toByteArray_inj]
    exact eq_comm
  · rename_i invalid
    refine iff_of_false nofun ?_
    rintro rfl
    exact invalid t.isValidUTF8

theorem truncateSome : truncate text n = some t ↔
    text.utf8ByteSize ≤ n ∧ t = text ∨ n < text.utf8ByteSize ∧ ∃ tail, text = t ++ tail ∧ t.utf8ByteSize = n := by
  unfold truncate
  split
  · rename_i short
    simp only [short,true_and,Nat.not_lt.mpr short,false_and,or_false,Option.some.injEq]
    exact eq_comm
  · rename_i long
    have more : n < text.utf8ByteSize := Nat.lt_of_not_le long
    simp only [long,more,false_and,false_or,true_and,fromBytes,String.toUTF8_eq_toByteArray]
    constructor
    · intro same
      have valid : String.Pos.Raw.IsValid text ⟨n⟩ := by
        rw [String.Pos.Raw.isValid_iff_isValidUTF8_extract_zero]
        exact ⟨more.le,same ▸ t.isValidUTF8⟩
      obtain ⟨head,tail,rfl,size⟩ := String.Pos.Raw.isValid_iff_exists_append.mp valid
      have size : n = head.utf8ByteSize := congrArg String.Pos.Raw.byteIdx size
      subst size
      rw [String.toByteArray_append,ByteArray.extract_append_eq_left String.size_toByteArray.symm] at same
      rw [String.toByteArray_inj.mp same]
      exact ⟨tail,rfl,rfl⟩
    · rintro ⟨tail,rfl,rfl⟩
      rw [String.toByteArray_append,ByteArray.extract_append_eq_left String.size_toByteArray.symm]

theorem keptIff (positive : 0 < n) : Kept n text ↔ Fits n text := by
  constructor
  · rintro ⟨t,truncated,_⟩
    rcases truncateSome.mp truncated with ⟨short,_⟩ | ⟨_,tail,whole,size⟩
    · exact .inl short
    · exact .inr ⟨t,tail,whole,size⟩
  · intro fits
    by_cases short : text.utf8ByteSize ≤ n
    · exact ⟨text,truncateSome.mpr (.inl ⟨short,rfl⟩),List.prefix_rfl,short,id⟩
    · obtain ⟨head,tail,rfl,size⟩ := fits.resolve_left short
      refine ⟨head,truncateSome.mpr (.inr ⟨Nat.lt_of_not_le short,tail,rfl,size⟩),?_,size.le,?_⟩
      · rw [String.toList_append]
        exact List.prefix_append ..
      · rintro _ rfl
        exact absurd size (Nat.ne_of_lt positive)

theorem keptEncoded (kept : Kept n text) (plain : '\x00' ∉ text.toList) : Encoded (truncate text n) := by
  obtain ⟨t,truncated,front,_⟩ := kept
  exact ⟨t,truncated,fun mem => plain (front.subset mem)⟩

/- The CHECK on the reason counts characters, and there are no more of them than bytes. -/
theorem reasonStored {db : Db} {id : NotificationId} {x : Notification} (kept : Kept 500 text) (given : text ≠ "")
    (found : db.row id = some x) (free : db.deadLetters id = none) (payload : Payload) :
    ∃ reason, truncate text 500 = some reason ∧
      (db.insertDeadLetter id (truncate text 500) payload).deadLetters id = some ⟨reason,payload⟩ := by
  obtain ⟨t,truncated,_,short,nonempty⟩ := kept
  have checked : 1 ≤ t.length ∧ t.length ≤ 500 :=
    ⟨Utf8.lengthPositive.mpr (nonempty given),(Utf8.lengthBytes t).trans short⟩
  refine ⟨t,truncated,?_⟩
  simp only [Db.insertDeadLetter,truncated,found,free,if_pos checked,Function.update_self]

theorem failureMarked {b : Outbox.Batch} (kept : Kept 1024 text) (phase : b.phase = .markFailed text) :
    ∃ lastError, truncate text 1024 = some lastError ∧
      Outbox.step b (.db .ok) = some (some (.markOutboxFailed b.id lastError),Outbox.start b.rest) := by
  obtain ⟨t,truncated,_⟩ := kept
  refine ⟨t,truncated,?_⟩
  simp only [Outbox.step,phase,truncated,Outcome.does]

end

theorem truncationStorable (text : String) : (∀ n, 0 < n → (Kept n text ↔ Fits n text)) ∧
    ('\x00' ∉ text.toList →
      (text ≠ "" → Fits 500 text → Encoded (truncate text 500) ∧
        ∀ (db : Db) id x payload, db.row id = some x → db.deadLetters id = none → ∃ reason,
          truncate text 500 = some reason ∧
          (db.insertDeadLetter id (truncate text 500) payload).deadLetters id = some ⟨reason,payload⟩) ∧
      (Fits 1024 text → Encoded (truncate text 1024) ∧
        ∀ b : Outbox.Batch, b.phase = .markFailed text → ∃ lastError, truncate text 1024 = some lastError ∧
          Outbox.step b (.db .ok) = some (some (.markOutboxFailed b.id lastError),Outbox.start b.rest))) := by
  refine ⟨fun n => keptIff,fun plain => ⟨?_,?_⟩⟩
  · intro given fits
    have kept : Kept 500 text := (keptIff (by decide)).mpr fits
    exact ⟨keptEncoded kept plain,fun db id x payload found free => reasonStored kept given found free payload⟩
  · intro fits
    have kept : Kept 1024 text := (keptIff (by decide)).mpr fits
    exact ⟨keptEncoded kept plain,fun b => failureMarked kept⟩

def cuts : Nat → Text → Bool
  | 0,_ => true
  | _+1,[] => false
  | n+1,c::rest => decide (c.utf8Size ≤ n + 1) && cuts (n + 1 - c.utf8Size) rest

theorem cutsHead (head tail : Text) : cuts (String.utf8Len head) (head ++ tail) = true := by
  induction head with
  | nil => exact cuts.eq_1 _
  | cons c head ih =>
    have positive := Char.utf8Size_pos c
    obtain ⟨k,size⟩ : ∃ k, String.utf8Len (c::head) = k + 1 :=
      ⟨_,(Nat.sub_add_cancel (by rw [String.utf8Len_cons]; omega)).symm⟩
    have rest : k + 1 - c.utf8Size = String.utf8Len head := by
      rw [← size,String.utf8Len_cons]
      omega
    have enough : c.utf8Size ≤ k + 1 := by
      rw [← size,String.utf8Len_cons]
      omega
    rw [size,List.cons_append,cuts,rest,ih,decide_eq_true enough]
    rfl

theorem fitsCuts {n : Nat} {t : Text} (fits : Fits n (String.ofList t)) : String.utf8Len t ≤ n ∨ cuts n t = true := by
  rcases fits with short | ⟨head,tail,whole,rfl⟩
  · rw [← String.utf8Len_toList,String.toList_ofList] at short
    exact .inl short
  · have parts := congrArg String.toList whole
    rw [String.toList_ofList,String.toList_append] at parts
    rw [parts,← String.utf8Len_toList]
    exact .inr (cutsHead ..)

def badRequest (body : Text) : Response := ⟨400,[],Utf8.bytes body⟩

def refusal (body : Text) : SendError := ⟨.client,400,0,none,Utf8.bytes body⟩

theorem badRequestRefused (lib : Library) (now : Int) (body : Text) :
    classify lib now (badRequest body) = some (refusal body) := rfl

def refusalFront : Text :=
  "send (".toList ++ kindString .client ++ ", status=".toList ++ Nat.toDigits 10 400 ++ ", body=".toList

theorem refusalError (lib : Library) (body : Text) : (refusal body).error lib =
    refusalFront ++ ('"' :: body.flatMap (escaped lib) ++ ['"']) ++ ")".toList := by
  have regroup (a b c d : Text) : a ++ (b ++ c ++ d) = a ++ b ++ c ++ d := by simp only [List.append_assoc]
  unfold SendError.error refusal
  rw [quoteText]
  exact regroup ..

theorem shortBodyStored : Kept 500 (String.ofList ((refusal "no".toList).error plainLibrary)) ∧
    Encoded (truncate (String.ofList ((refusal "no".toList).error plainLibrary)) 500) := by
  obtain ⟨kept,stored⟩ := truncationStorable (String.ofList ((refusal "no".toList).error plainLibrary))
  have fits : Fits 500 (String.ofList ((refusal "no".toList).error plainLibrary)) := by
    refine .inl ?_
    rw [← String.utf8Len_toList,String.toList_ofList,refusalError]
    decide +kernel
  rw [String.toList_ofList,refusalError] at stored
  rw [refusalError] at kept fits ⊢
  obtain ⟨reasons,_⟩ := stored (by decide +kernel)
  refine ⟨(kept 500 (by decide)).mpr fits,(reasons ?_ fits).1⟩
  rw [ne_eq,String.ofList_eq_empty_iff]
  decide +kernel

def accented : Text := 'a'::List.replicate 300 'é'

theorem accentCut : ¬ ∀ (lib : Library) (now : Int) (r : Response) (e : SendError), classify lib now r = some e →
    Kept 500 (String.ofList (e.error lib)) := by
  intro always
  have kept := always plainLibrary 0 (badRequest accented) (refusal accented) (badRequestRefused ..)
  have shown : accented.flatMap (escaped plainLibrary) = accented := by decide +kernel
  have fits := fitsCuts ((keptIff (by decide)).mp kept)
  rw [refusalError,shown] at fits
  exact absurd fits (by decide +kernel)

end Notifyd.Truncation
