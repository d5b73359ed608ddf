import Mathlib.Data.List.Basic

/-! Patterns that are concatenations of symbol classes, each for one symbol or, greedily, for any number of
them. Of the ways to match, the first in the order of backtracking counts: an earlier repetition is as long
as it can be. -/
namespace Notifyd.Patterns

variable {α β : Type}

inductive Item (α : Type) where
  | one (symbol : α → Bool)
  | many (symbol : α → Bool)

def longest (symbol : α → Bool) (next : List α → Option β) : List α → Option (List α × β)
  | [] => (next []).map (fun b => ([],b))
  | a::rest =>
      if symbol a then
        match longest symbol next rest with
        | some (run,b) => some (a::run,b)
        | none => (next (a::rest)).map (fun b => ([],b))
      else (next (a::rest)).map (fun b => ([],b))

def matchHead : List (Item α) → List α → Option (List (List α) × List α)
  | [],text => some ([],text)
  | .one _::_,[] => none
  | .one symbol::items,a::rest =>
      if symbol a then (matchHead items rest).map (fun m => ([a]::m.1,m.2)) else none
  | .many symbol::items,text =>
      (longest symbol (matchHead items) text).map (fun m => (m.1::m.2.1,m.2.2))

/- The matches from left to right, none overlapping another, of a pattern that does not match the empty text. -/
def scan (items : List (Item α)) : Nat → List α → List (List (List α))
  | 0,_ => []
  | n + 1,text => match matchHead items text with
    | some (pieces,rest) => pieces::scan items n rest
    | none => scan items n text.tail

def findAll (items : List (Item α)) (text : List α) : List (List (List α)) := scan items text.length text

theorem scanHit {items : List (Item α)} {text rest : List α} {pieces : List (List α)} (n : Nat)
    (hit : matchHead items text = some (pieces,rest)) : scan items (n + 1) text = pieces::scan items n rest := by
  simp only [scan,hit]

theorem scanMiss {items : List (Item α)} {skipped rest : List α} {n : Nat} (enough : skipped.length ≤ n)
    (miss : ∀ before after, skipped = before ++ after → after ≠ [] → matchHead items (after ++ rest) = none) :
    scan items n (skipped ++ rest) = scan items (n - skipped.length) rest := by
  induction skipped generalizing n with
  | nil => rfl
  | cons a skipped ih =>
    cases n with
    | zero => cases enough
    | succ n =>
      have here : matchHead items (a::(skipped ++ rest)) = none := miss [] (a::skipped) rfl (List.cons_ne_nil _ _)
      have later := ih (Nat.le_of_succ_le_succ enough)
        fun before after split nonempty => miss (a::before) after (by rw [split]; rfl) nonempty
      rw [List.length_cons,Nat.add_sub_add_right,← later,List.cons_append]
      simp only [scan,here,List.tail_cons]

theorem scanNil {items : List (Item α)} (miss : matchHead items [] = none) (n : Nat) : scan items n [] = [] := by
  induction n with
  | zero => rfl
  | succ n ih =>
    simp only [scan,miss,List.tail_nil]
    exact ih

theorem matchOneSome {symbol : α → Bool} {items : List (Item α)} {a : α} {rest : List α} (own : symbol a = true) :
    matchHead (.one symbol::items) (a::rest) = (matchHead items rest).map (fun m => ([a]::m.1,m.2)) := by
  rw [matchHead,own]
  rfl

theorem matchOneNone {symbol : α → Bool} {items : List (Item α)} {a : α} {rest : List α} (other : symbol a = false) :
    matchHead (.one symbol::items) (a::rest) = none := by
  rw [matchHead,other]
  rfl

theorem longestAll {symbol : α → Bool} {next : List α → Option β} {run rest : List α} {b : β}
    (inside : ∀ a ∈ run, symbol a = true) (stop : ∀ a, rest.head? = some a → symbol a = false)
    (done : next rest = some b) : longest symbol next (run ++ rest) = some (run,b) := by
  induction run with
  | nil =>
    cases rest with
    | nil => rw [List.nil_append,longest,done]; rfl
    | cons a rest => rw [List.nil_append,longest,stop a rfl,done]; rfl
  | cons a run ih =>
    obtain ⟨first,others⟩ := List.forall_mem_cons.mp inside
    rw [List.cons_append,longest,first,if_pos rfl,ih others]

theorem longestNone {symbol : α → Bool} {next : List α → Option β} {text : List α}
    (fails : ∀ run rest, text = run ++ rest → (∀ a ∈ run, symbol a = true) → next rest = none) :
    longest symbol next text = none := by
  induction text with
  | nil => rw [longest,fails [] [] rfl (List.forall_mem_nil _)]; rfl
  | cons a text ih =>
    have here : next (a::text) = none := fails [] (a::text) rfl (List.forall_mem_nil _)
    rw [longest,here]
    split
    · rename_i own
      rw [ih fun run rest split inside => fails (a::run) rest (by rw [split]; rfl) (List.forall_mem_cons.mpr ⟨own,inside⟩)]
      rfl
    · rfl

end Notifyd.Patterns
