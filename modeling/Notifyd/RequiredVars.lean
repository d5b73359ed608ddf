import Mathlib.Data.List.Dedup
import Mathlib.Data.List.TakeWhile
import Notifyd.JsonValues
import Notifyd.Patterns

/-! `Parse` and `CheckRequired` of `internal/template`. The variables of a template are found by a regular
expression over its text. In each action the expression takes the last field, since its first repetition is
greedy, and it does not know quoted constants: an action is cut at its closing braces, and names are found in the
pieces that two of them follow. -/
namespace Notifyd.RequiredVars
open Numerals Patterns

def notBrace (c : Char) : Bool := c != '}'

def identStart (c : Char) : Bool := c.isAlpha || c == '_'

def identChar (c : Char) : Bool := c.isAlpha || c.isDigit || c == '_'

/- \{\{[^}]*\.([A-Za-z_][A-Za-z0-9_]*)[^}]*\}\} -/
def afterRun : List (Item Char) :=
  [.one (· == '.'),.one identStart,.many identChar,.many notBrace,.one (· == '}'),.one (· == '}')]

def varRefRe : List (Item Char) := .one (· == '{')::.one (· == '{')::.many notBrace::afterRun

def group (pieces : List Text) : Text := pieces.getD 4 [] ++ pieces.getD 5 []

def references (body : Text) : List Text :=
  Ordered.orderBy JsonValues.nameOrder ((findAll varRefRe body).map group).dedup

/- `accepts` stands for the parser of text/template. -/
def parse (accepts : Text → Bool) (body : Text) : Option (List Text) :=
  if accepts body then some (references body) else none

def checkRequired {ν : Type} (required : List Text) (vars : Text → Option ν) : List Text :=
  required.filter (fun r => (vars r).isNone)

def refAt : Text → Option Text
  | '.'::c::rest => if identStart c then some (c::rest.takeWhile identChar) else none
  | _ => none

def refs : Text → List Text
  | [] => []
  | c::rest => (refAt (c::rest)).toList ++ refs rest

def closed (rest : Text) : Text := '}':: '}'::rest

theorem wordHit {v : Text} (plain : '}' ∉ v) (rest : Text) :
    longest notBrace (matchHead [.one (· == '}'),.one (· == '}')]) (v ++ closed rest) = some (v,[['}'],['}']],rest) := by
  refine longestAll ?_ ?_ rfl
  · intro c mem
    exact bne_iff_ne.mpr (fun same => plain (same ▸ mem))
  · rintro _ ⟨⟩
    rfl

theorem identHit {v : Text} (plain : '}' ∉ v) (rest : Text) :
    longest identChar (matchHead [.many notBrace,.one (· == '}'),.one (· == '}')]) (v ++ closed rest) =
      some (v.takeWhile identChar,[v.dropWhile identChar,['}'],['}']],rest) := by
  have whole : v ++ closed rest = v.takeWhile identChar ++ (v.dropWhile identChar ++ closed rest) := by
    rw [← List.append_assoc,List.takeWhile_append_dropWhile]
  have after : '}' ∉ v.dropWhile identChar := fun mem => plain ((List.dropWhile_suffix _).subset mem)
  rw [whole]
  refine longestAll (fun c mem => List.mem_takeWhile_imp mem) ?_ ?_
  · intro c head
    cases tail : v.dropWhile identChar with
    | nil =>
      rw [tail] at head
      cases head
      decide
    | cons d more =>
      rw [tail] at head
      cases head
      have stops := List.head?_dropWhile_not identChar v
      rw [tail] at stops
      exact stops
  · rw [matchHead,wordHit after]
    rfl

theorem afterRunHit {c : Char} (start : identStart c = true) {v : Text} (plain : '}' ∉ v) (rest : Text) :
    matchHead afterRun ('.'::c::v ++ closed rest) =
      some ([['.'],[c],v.takeWhile identChar,v.dropWhile identChar,['}'],['}']],rest) := by
  rw [afterRun,List.cons_append,matchOneSome rfl,List.cons_append,matchOneSome start,matchHead,identHit plain]
  rfl

theorem afterRunMiss {u : Text} (unnamed : refAt u = none) (rest : Text) : matchHead afterRun (u ++ closed rest) = none := by
  cases u with
  | nil => exact matchOneNone rfl
  | cons dot u =>
    by_cases isDot : dot = '.'
    · subst isDot
      rw [afterRun,List.cons_append,matchOneSome rfl]
      cases u with
      | nil => rfl
      | cons c v =>
        have other : identStart c = false := by
          by_contra start
          rw [refAt,if_pos (Bool.eq_true_of_not_eq_false start)] at unnamed
          cases unnamed
        rw [List.cons_append,matchOneNone other]
        rfl
    · exact matchOneNone (beq_false_of_ne isDot)

theorem afterRunHead {u : Text} (plain : '}' ∉ u) (rest : Text) :
    (matchHead afterRun (u ++ closed rest)).map (fun m => (m.1.getD 1 [] ++ m.1.getD 2 [],m.2)) =
      (refAt u).map (fun name => (name,rest)) := by
  cases found : refAt u with
  | none => rw [afterRunMiss found]; rfl
  | some name =>
    unfold refAt at found
    split at found
    · rename_i c v
      split at found
      · rename_i start
        cases Option.some.inj found
        rw [afterRunHit start fun mem => plain (List.mem_cons_of_mem _ (List.mem_cons_of_mem _ mem))]
        rfl
      · cases found
    · cases found

theorem runLast {a : Text} (plain : '}' ∉ a) (rest : Text) :
    (longest notBrace (matchHead afterRun) (a ++ closed rest)).map (fun m => (m.2.1.getD 1 [] ++ m.2.1.getD 2 [],m.2.2)) =
      (refs a).getLast?.map (fun name => (name,rest)) := by
  induction a with
  | nil => rfl
  | cons c a ih =>
    have inner : '}' ∉ a := fun mem => plain (List.mem_cons_of_mem _ mem)
    have passes : notBrace c = true := bne_iff_ne.mpr (fun same => plain (same ▸ List.mem_cons_self))
    have here := afterRunHead plain rest
    have last := ih inner
    have single : (refAt (c::a)).toList.getLast? = refAt (c::a) := by cases refAt (c::a) <;> rfl
    rw [List.cons_append] at here
    rw [refs,List.getLast?_append,single,List.cons_append,longest,if_pos passes]
    cases later : longest notBrace (matchHead afterRun) (a ++ closed rest) with
    | some m =>
      rw [later] at last
      obtain ⟨name,found,same⟩ := Option.map_eq_some_iff.mp last.symm
      rw [found]
      exact congrArg some same.symm
    | none =>
      rw [later] at last
      rw [Option.map_eq_none_iff.mp last.symm,Option.none_or,← here,Option.map_map]
      rfl

theorem actionHit {a : Text} (plain : '}' ∉ a) (rest : Text) :
    (matchHead varRefRe ('{':: '{'::(a ++ closed rest))).map (fun m => (group m.1,m.2)) =
      (refs a).getLast?.map (fun name => (name,rest)) := by
  rw [varRefRe,matchOneSome rfl,matchOneSome rfl,matchHead,← runLast plain rest]
  simp only [Option.map_map]
  rfl

theorem refsSuffix {x y : Text} (unnamed : refs (x ++ y) = []) : refs y = [] := by
  induction x with
  | nil => exact unnamed
  | cons c x ih =>
    rw [List.cons_append,refs] at unnamed
    exact ih (List.append_eq_nil_iff.mp unnamed).2

theorem openMiss {text : Text} (unopened : ∀ t, text ≠ '{':: '{'::t) : matchHead varRefRe text = none := by
  cases text with
  | nil => rfl
  | cons c text =>
    by_cases first : c = '{'
    · subst first
      rw [varRefRe,matchOneSome rfl]
      cases text with
      | nil => rfl
      | cons d text =>
        have second : d ≠ '{' := by
          rintro rfl
          exact unopened text rfl
        have miss : matchHead (.one (· == '{')::.many notBrace::afterRun) (d::text) = none :=
          matchOneNone (beq_false_of_ne second)
        rw [miss]
        rfl
    · exact matchOneNone (beq_false_of_ne first)

theorem unnamedMiss {w : Text} (plain : '}' ∉ w) (unnamed : refs w = []) (rest : Text) :
    matchHead varRefRe (w ++ closed rest) = none := by
  by_cases opened : ∃ u, w = '{':: '{'::u
  · obtain ⟨u,rfl⟩ := opened
    have inner : '}' ∉ u := fun mem => plain (List.mem_cons_of_mem _ (List.mem_cons_of_mem _ mem))
    have hit := actionHit inner rest
    rw [refsSuffix (x := ['{','{']) unnamed] at hit
    exact Option.map_eq_none_iff.mp hit
  · refine openMiss fun t same => ?_
    cases w with
    | nil => cases same
    | cons c w =>
      cases w with
      | nil => cases same
      | cons d w =>
        cases same
        exact opened ⟨w,rfl⟩

inductive Token where
  | constant (written : Text)
  | field (name : Text)
  | word (name : Text)

def Token.text : Token → Text
  | .constant written => written
  | .field name => '.'::name
  | .word name => name

structure Action where
  lead : Text
  tokens : List (Token × Text)

structure Body where
  parts : List (Text × Action)
  tail : Text

def tokensText (tokens : List (Token × Text)) : Text := tokens.flatMap (fun t => t.1.text ++ t.2)

def Action.text (a : Action) : Text := a.lead ++ tokensText a.tokens

def partText (p : Text × Action) : Text := p.1 ++ '{':: '{'::(p.2.text ++ ['}','}'])

def Body.text (b : Body) : Text := b.parts.flatMap partText ++ b.tail

def fieldOf : Token × Text → Option Text
  | (.field name,_) => some name
  | _ => none

def Action.fields (a : Action) : List Text := a.tokens.filterMap fieldOf

def Body.fields (b : Body) : List Text := b.parts.flatMap (fun p => p.2.fields)

def behindOpening : Text → Text
  | '{':: '{'::rest => rest
  | _::rest => behindOpening rest
  | [] => []

def lastNamed (w : Text) : Option Text := (refs (behindOpening w)).getLast?

def cut : Text → Text × List Text
  | [] => ([],[])
  | c::rest => if c = '}' then ([],(cut rest).1::(cut rest).2) else (c::(cut rest).1,(cut rest).2)

def names (w : Text) : List Text → List Text
  | [] => (lastNamed w).toList
  | []::more => (lastNamed w).toList ++ names [] more
  | next::more => names next more

def Action.captured (a : Action) : List Text := names (cut ('{':: '{'::a.text)).1 (cut ('{':: '{'::a.text)).2

def gapChar (c : Char) : Bool := [' ','\t','\r','\n','|','(',')',',','-'].contains c

def Spaced : List (Token × Text) → Prop
  | [] => True
  | [t] => ∀ c ∈ t.2, gapChar c = true
  | t::u::rest => (∀ c ∈ t.2, gapChar c = true) ∧ t.2 ≠ [] ∧ Spaced (u::rest)

def Literal (t : Text) : Prop := ∀ before after, t ++ ['{'] ≠ before ++ '{':: '{'::after

def Token.Shaped : Token → Prop
  | .constant _ => True
  | .field name => name ≠ []
  | .word name => ∀ c ∈ name, identChar c = true

structure Action.Shaped (a : Action) : Prop where
  lead : ∀ c ∈ a.lead, gapChar c = true
  spaced : Spaced a.tokens
  tokens : ∀ t ∈ a.tokens, t.1.Shaped

structure Body.Shaped (b : Body) : Prop where
  texts : ∀ p ∈ b.parts, Literal p.1
  actions : ∀ p ∈ b.parts, p.2.Shaped
  tail : ∀ before after, b.tail ≠ before ++ '{':: '{'::after

def Identifier (name : Text) : Prop := ∃ c rest, name = c::rest ∧ identStart c = true ∧ ∀ d ∈ rest, identChar d = true

def Token.Clear : Token → Prop
  | .constant written => '}' ∉ written ∧ refs written = []
  | .field name => Identifier name
  | .word _ => True

def Body.Clear (b : Body) : Prop := ∀ p ∈ b.parts, ∀ t ∈ p.2.tokens, t.1.Clear

theorem refAtOther {c : Char} (other : c ≠ '.') (rest : Text) : refAt (c::rest) = none := by
  unfold refAt
  split
  · rename_i same
    cases same
    exact absurd rfl other
  · rfl

theorem refsUndotted {x : Text} (undotted : '.' ∉ x) (y : Text) : refs (x ++ y) = refs y := by
  induction x with
  | nil => rfl
  | cons c x ih =>
    have other : c ≠ '.' := by
      rintro rfl
      exact undotted List.mem_cons_self
    rw [List.cons_append,refs,refAtOther other,ih fun mem => undotted (List.mem_cons_of_mem _ mem)]
    rfl

theorem identStartChar {c : Char} (start : identStart c = true) : identChar c = true := by
  simp only [identStart,identChar,Bool.or_eq_true] at start ⊢
  tauto

theorem refsAppend {y : Text} (apart : ∀ c, y.head? = some c → identChar c = false) (x : Text) :
    refs (x ++ y) = refs x ++ refs y := by
  have stops : ∀ v : Text, (v ++ y).takeWhile identChar = v.takeWhile identChar := by
    intro v
    induction v with
    | nil =>
      cases y with
      | nil => rfl
      | cons c y => exact List.takeWhile_cons_of_neg (by rw [apart c rfl]; nofun)
    | cons c v ih =>
      rw [List.cons_append,List.takeWhile_cons,List.takeWhile_cons,ih]
  have heads : ∀ c v, refAt (c::(v ++ y)) = refAt (c::v) := by
    intro c v
    by_cases dot : c = '.'
    · subst dot
      cases v with
      | nil =>
        cases y with
        | nil => rfl
        | cons d y =>
          have other : identStart d = false := by
            by_contra start
            have char := identStartChar (Bool.eq_true_of_not_eq_false start)
            rw [apart d rfl] at char
            cases char
          rw [List.nil_append,refAt,other]
          rfl
      | cons d v => rw [List.cons_append,refAt,refAt,stops]
    · rw [refAtOther dot,refAtOther dot]
  induction x with
  | nil => rfl
  | cons c x ih => rw [List.cons_append,refs,refs,heads,ih,List.append_assoc]

theorem gapApart : ∀ c, gapChar c = true → c ≠ '.' ∧ c ≠ '}' ∧ identChar c = false := by
  intro c gap
  have mem : c ∈ [' ','\t','\r','\n','|','(',')',',','-'] := List.contains_iff_mem.mp gap
  simp only [List.mem_cons,List.not_mem_nil,or_false] at mem
  rcases mem with rfl | rfl | rfl | rfl | rfl | rfl | rfl | rfl | rfl <;> decide

theorem tokenRefs {t : Token × Text} (shaped : t.1.Shaped) (clear : t.1.Clear) :
    refs t.1.text = (fieldOf t).toList ∧ '}' ∉ t.1.text := by
  obtain ⟨token,gap⟩ := t
  cases token with
  | constant written => exact ⟨clear.2,clear.1⟩
  | field name =>
    obtain ⟨c,rest,rfl,start,chars⟩ := clear
    have inside : ∀ d ∈ c::rest, identChar d = true := List.forall_mem_cons.mpr ⟨identStartChar start,chars⟩
    have undotted : '.' ∉ c::rest := fun mem => absurd (inside _ mem) (by decide)
    have whole : rest.takeWhile identChar = rest := List.takeWhile_eq_self_iff.mpr chars
    constructor
    · have others : refs (c::rest) = [] := by
        have nothing := refsUndotted undotted []
        rwa [List.append_nil] at nothing
      rw [Token.text,refs,refAt,if_pos start,whole,others]
      rfl
    · intro mem
      rcases List.mem_cons.mp mem with dot | brace
      · cases dot
      · exact absurd (inside _ brace) (by decide)
  | word name =>
    have undotted : '.' ∉ name := fun mem => absurd (shaped _ mem) (by decide)
    have nothing := refsUndotted undotted []
    rw [List.append_nil] at nothing
    exact ⟨nothing,fun mem => absurd (shaped _ mem) (by decide)⟩

theorem tokensRefs {tokens : List (Token × Text)} (spaced : Spaced tokens) (shaped : ∀ t ∈ tokens, t.1.Shaped)
    (clear : ∀ t ∈ tokens, t.1.Clear) :
    refs (tokensText tokens) = tokens.filterMap fieldOf ∧ '}' ∉ tokensText tokens := by
  induction tokens with
  | nil => exact ⟨rfl,nofun⟩
  | cons t rest ih =>
    obtain ⟨own,others⟩ := List.forall_mem_cons.mp shaped
    obtain ⟨seen,later⟩ := List.forall_mem_cons.mp clear
    obtain ⟨gaps,apart,following⟩ : (∀ c ∈ t.2, gapChar c = true) ∧ (t.2 = [] → rest = []) ∧ Spaced rest := by
      cases rest with
      | nil => exact ⟨spaced,fun _ => rfl,trivial⟩
      | cons u rest => exact ⟨spaced.1,fun empty => absurd empty spaced.2.1,spaced.2.2⟩
    obtain ⟨restRefs,restPlain⟩ := ih following others later
    obtain ⟨tokenRef,tokenPlain⟩ := tokenRefs own seen
    have undotted : '.' ∉ t.2 := fun mem => (gapApart _ (gaps _ mem)).1 rfl
    have boundary : ∀ c, (t.2 ++ tokensText rest).head? = some c → identChar c = false := by
      intro c head
      cases gap : t.2 with
      | nil =>
        rw [gap,apart gap] at head
        cases head
      | cons d more =>
        rw [gap] at head
        cases head
        exact (gapApart _ (gaps _ (gap ▸ List.mem_cons_self))).2.2
    have text : tokensText (t::rest) = t.1.text ++ (t.2 ++ tokensText rest) := by
      rw [tokensText,List.flatMap_cons,List.append_assoc]
      rfl
    rw [text]
    constructor
    · rw [refsAppend boundary,refsUndotted undotted,tokenRef,restRefs,List.filterMap_cons]
      cases fieldOf t <;> rfl
    · simp only [List.mem_append,not_or]
      exact ⟨tokenPlain,fun mem => (gapApart _ (gaps _ mem)).2.1 rfl,restPlain⟩

theorem actionRefs {a : Action} (shaped : a.Shaped) (clear : ∀ t ∈ a.tokens, t.1.Clear) :
    refs a.text = a.fields ∧ '}' ∉ a.text := by
  obtain ⟨named,plain⟩ := tokensRefs shaped.spaced shaped.tokens clear
  have undotted : '.' ∉ a.lead := fun mem => (gapApart _ (shaped.lead _ mem)).1 rfl
  constructor
  · rw [Action.text,refsUndotted undotted]
    exact named
  · rw [Action.text,List.mem_append,not_or]
    exact ⟨fun mem => (gapApart _ (shaped.lead _ mem)).2.1 rfl,plain⟩

theorem literalMiss {t rest before after : Text} (literal : Literal t) (split : t = before ++ after) (nonempty : after ≠ []) :
    matchHead varRefRe (after ++ '{'::rest) = none := by
  refine openMiss fun u same => ?_
  cases after with
  | nil => exact nonempty rfl
  | cons c after =>
    cases after with
    | nil =>
      cases same
      exact literal before [] (by rw [split,List.append_assoc]; rfl)
    | cons d after =>
      cases same
      exact literal before (after ++ ['{']) (by rw [split,List.append_assoc]; rfl)

theorem unnamedScan {a rest : Text} (plain : '}' ∉ a) (unnamed : refs a = []) {n : Nat} (enough : a.length + 4 ≤ n) :
    scan varRefRe n ('{':: '{'::(a ++ closed rest)) = scan varRefRe (n - (a.length + 4)) rest := by
  have opening : '}' ∉ '{':: '{'::a := by simp [plain]
  have inside : scan varRefRe n (('{':: '{'::a) ++ closed rest) = scan varRefRe (n - ('{':: '{'::a).length) (closed rest) := by
    refine scanMiss (by simp only [List.length_cons]; omega) fun before after split _ => ?_
    have nothing : refs (before ++ after) = [] := split ▸ unnamed
    exact unnamedMiss (fun mem => opening (split ▸ List.mem_append_right _ mem)) (refsSuffix nothing) rest
  have braces : scan varRefRe (n - ('{':: '{'::a).length) (['}','}'] ++ rest) =
      scan varRefRe (n - ('{':: '{'::a).length - 2) rest := by
    refine scanMiss (by simp only [List.length_cons,List.length_nil]; omega) fun before after split nonempty => ?_
    refine openMiss fun t same => ?_
    cases after with
    | nil => exact nonempty rfl
    | cons c after =>
      have mem : c ∈ ['}','}'] := split ▸ List.mem_append_right _ List.mem_cons_self
      rw [(List.cons.inj same).1] at mem
      exact absurd mem (by decide)
  have left : n - ('{':: '{'::a).length - 2 = n - (a.length + 4) := by
    simp only [List.length_cons]
    omega
  exact (inside.trans braces).trans (by rw [left])

theorem closeMiss (text : Text) : matchHead varRefRe ('}'::text) = none := matchOneNone rfl

theorem scanPiece {w rest : Text} (plain : '}' ∉ w) {n : Nat} (enough : w.length + 2 + rest.length ≤ n) :
    ∃ m, rest.length ≤ m ∧ (scan varRefRe n (w ++ closed rest)).map group =
      (lastNamed w).toList ++ (scan varRefRe m rest).map group := by
  induction w using behindOpening.induct generalizing n with
  | case1 u =>
    have inner : '}' ∉ u := fun mem => plain (List.mem_cons_of_mem _ (List.mem_cons_of_mem _ mem))
    simp only [List.length_cons] at enough
    have hit := actionHit inner rest
    have named : lastNamed ('{':: '{'::u) = (refs u).getLast? := rfl
    rw [named]
    cases last : (refs u).getLast? with
    | some name =>
      rw [last] at hit
      obtain ⟨⟨pieces,after⟩,found,same⟩ := Option.map_eq_some_iff.mp hit
      have caught : group pieces = name := congrArg Prod.fst same
      have remaining : after = rest := congrArg Prod.snd same
      subst caught remaining
      obtain ⟨m,rfl⟩ : ∃ m, n = m + 1 := ⟨n - 1,by omega⟩
      refine ⟨m,by omega,?_⟩
      rw [List.cons_append,List.cons_append,scanHit m found]
      rfl
    | none =>
      refine ⟨n - (u.length + 4),by omega,?_⟩
      rw [List.cons_append,List.cons_append,unnamedScan inner (List.getLast?_eq_none_iff.mp last) (by omega)]
      rfl
  | case2 c w other ih =>
    obtain ⟨k,rfl⟩ : ∃ k, n = k + 1 := ⟨n - 1,by simp only [List.length_cons] at enough; omega⟩
    have inner : '}' ∉ w := fun mem => plain (List.mem_cons_of_mem _ mem)
    have miss : matchHead varRefRe (c::(w ++ closed rest)) = none := by
      refine openMiss fun t same => ?_
      obtain ⟨rfl,tail⟩ := List.cons.inj same
      cases w with
      | nil => cases tail
      | cons d w =>
        cases (List.cons.inj tail).1
        exact other w rfl rfl
    obtain ⟨m,left,caught⟩ := ih inner (n := k) (by simp only [List.length_cons] at enough; omega)
    refine ⟨m,left,?_⟩
    have same : lastNamed (c::w) = lastNamed w := by
      rw [lastNamed,lastNamed,behindOpening.eq_2 c w other]
    rw [same,← caught,List.cons_append]
    simp only [scan,miss,List.tail_cons]
  | case3 =>
    obtain ⟨m,rfl⟩ : ∃ m, n = m + 1 + 1 := ⟨n - 2,by omega⟩
    refine ⟨m,by simp only [List.length_nil] at enough; omega,?_⟩
    rw [List.nil_append,closed]
    simp only [scan,closeMiss,List.tail_cons]
    rfl

def Blocked (text : Text) : Prop := ∃ u c rest, text = u ++ '}'::c::rest ∧ '}' ∉ u ∧ c ≠ '}'

theorem blockedAfter {run rest : Text} (blocked : Blocked (run ++ rest)) (plain : '}' ∉ run) : Blocked rest := by
  induction run with
  | nil => exact blocked
  | cons a run ih =>
    obtain ⟨u,c,later,split,clear,alone⟩ := blocked
    have other : a ≠ '}' := fun same => plain (same ▸ List.mem_cons_self)
    refine ih ?_ (fun mem => plain (List.mem_cons_of_mem _ mem))
    cases u with
    | nil => exact absurd (List.cons.inj split).1 other
    | cons b u => exact ⟨u,c,later,(List.cons.inj split).2,fun mem => clear (List.mem_cons_of_mem _ mem),alone⟩

def symbolOf : Item Char → Char → Bool
  | .one symbol => symbol
  | .many symbol => symbol

theorem blockedMiss {items : List (Item Char)} (apart : ∀ i ∈ items, symbolOf i '}' = false) {text : Text}
    (blocked : Blocked text) :
    matchHead (items ++ [Item.one (· == '}'),.one (· == '}')]) text = none := by
  induction items generalizing text with
  | nil =>
    obtain ⟨u,c,rest,rfl,plain,alone⟩ := blocked
    cases u with
    | nil =>
      have miss : matchHead [.one (· == '}')] (c::rest) = none := matchOneNone (beq_false_of_ne alone)
      rw [List.nil_append,List.nil_append,matchOneSome rfl,miss]
      rfl
    | cons a u => exact matchOneNone (beq_false_of_ne fun same => plain (same ▸ List.mem_cons_self))
  | cons i items ih =>
    obtain ⟨own,others⟩ := List.forall_mem_cons.mp apart
    have plain {symbol : Char → Bool} (off : symbol '}' = false) {run : Text} (inside : ∀ a ∈ run, symbol a = true) :
        '}' ∉ run := fun mem => absurd (inside _ mem) (Bool.eq_false_iff.mp off)
    cases i with
    | one symbol =>
      cases text with
      | nil => rfl
      | cons a text =>
        cases here : symbol a with
        | false => exact matchOneNone here
        | true =>
          have alone : '}' ∉ [a] := plain own (List.forall_mem_singleton.mpr here)
          have later : Blocked text := blockedAfter blocked alone
          rw [List.cons_append,matchOneSome here,ih others later]
          rfl
    | many symbol =>
      have none_ : longest symbol (matchHead (items ++ [Item.one (· == '}'),.one (· == '}')])) text = none :=
        longestNone fun run rest split inside => ih others (blockedAfter (split ▸ blocked) (plain own inside))
      rw [List.cons_append,matchHead,none_]
      rfl

def beforeClose : List (Item Char) :=
  [.one (· == '{'),.one (· == '{'),.many notBrace,.one (· == '.'),.one identStart,.many identChar,.many notBrace]

theorem varBlocked {text : Text} (blocked : Blocked text) : matchHead varRefRe text = none := by
  have apart : ∀ i ∈ beforeClose, symbolOf i '}' = false := by decide
  exact blockedMiss apart blocked

def braced (w : Text) : List Text → Text → Text
  | [],rest => w ++ closed rest
  | next::more,rest => w ++ '}'::braced next more rest

theorem bracedCut (t rest : Text) : braced (cut t).1 (cut t).2 rest = t ++ closed rest := by
  induction t with
  | nil => rfl
  | cons c t ih =>
    rw [cut]
    split
    · rename_i brace
      rw [braced,ih,brace]
      rfl
    · rw [List.cons_append,← ih]
      cases (cut t).2 <;> rfl

theorem cutPlain (t : Text) : '}' ∉ (cut t).1 ∧ ∀ w ∈ (cut t).2, '}' ∉ w := by
  induction t with
  | nil => exact ⟨List.not_mem_nil,List.forall_mem_nil _⟩
  | cons c t ih =>
    rw [cut]
    split
    · exact ⟨List.not_mem_nil,List.forall_mem_cons.mpr ih⟩
    · rename_i other
      refine ⟨fun mem => ?_,ih.2⟩
      rcases List.mem_cons.mp mem with same | later
      · exact other same.symm
      · exact ih.1 later

theorem cutWhole {t : Text} (plain : '}' ∉ t) : cut t = (t,[]) := by
  induction t with
  | nil => rfl
  | cons c t ih =>
    have other : c ≠ '}' := fun same => plain (same ▸ List.mem_cons_self)
    rw [cut,if_neg other,ih fun mem => plain (List.mem_cons_of_mem _ mem)]

theorem bracedNil (more : List Text) (rest : Text) : ∃ later, braced [] more rest = '}'::later := by
  cases more with
  | nil => exact ⟨'}'::rest,rfl⟩
  | cons next more => exact ⟨braced next more rest,rfl⟩

theorem bracedCons (c : Char) (w : Text) (more : List Text) (rest : Text) :
    braced (c::w) more rest = c::braced w more rest := by
  cases more <;> rfl

theorem scanPast {w later : Text} {c : Char} (plain : '}' ∉ w) (other : c ≠ '}') {n : Nat}
    (enough : (w ++ ['}']).length ≤ n) :
    scan varRefRe n ((w ++ ['}']) ++ c::later) = scan varRefRe (n - (w ++ ['}']).length) (c::later) := by
  refine scanMiss enough fun before after split nonempty => varBlocked ?_
  obtain ⟨u,rfl⟩ : ∃ u, after = u ++ ['}'] := by
    rcases List.eq_nil_or_concat after with empty | ⟨u,d,rfl⟩
    · exact absurd empty nonempty
    · rw [List.concat_eq_append,← List.append_assoc] at split
      rw [List.concat_eq_append,(List.append_inj_right' split rfl).symm]
      exact ⟨u,rfl⟩
  refine ⟨u,c,later,by rw [List.append_assoc]; rfl,fun mem => plain ?_,other⟩
  rw [← List.append_assoc] at split
  rw [List.append_cancel_right split]
  exact List.mem_append_right _ mem

theorem scanPieces {w rest : Text} {more : List Text} (plain : '}' ∉ w) (others : ∀ x ∈ more, '}' ∉ x) {n : Nat}
    (enough : (braced w more rest).length ≤ n) : ∃ m, rest.length ≤ m ∧
      (scan varRefRe n (braced w more rest)).map group = names w more ++ (scan varRefRe m rest).map group := by
  induction more generalizing w n with
  | nil =>
    refine scanPiece plain ?_
    simp only [braced,List.length_append,closed,List.length_cons] at enough
    omega
  | cons next more ih =>
    obtain ⟨nextPlain,morePlain⟩ := List.forall_mem_cons.mp others
    rw [braced] at enough ⊢
    simp only [List.length_append,List.length_cons] at enough
    cases next with
    | nil =>
      obtain ⟨later,same⟩ := bracedNil more rest
      rw [same] at enough ⊢
      have fits : w.length + 2 + later.length ≤ n := by
        simp only [List.length_cons] at enough
        omega
      obtain ⟨m,left,caught⟩ := scanPiece plain fits
      obtain ⟨k,left',tail⟩ := ih (w := []) nextPlain morePlain (n := m + 1) (by rw [same]; exact Nat.succ_le_succ left)
      refine ⟨k,left',?_⟩
      rw [names,List.append_assoc,← tail,same]
      simp only [scan,closeMiss,List.tail_cons]
      exact caught
    | cons c next =>
      have other : c ≠ '}' := fun same => nextPlain (same ▸ List.mem_cons_self)
      have fits : (w ++ ['}']).length ≤ n := by
        simp only [List.length_append,List.length_cons,List.length_nil]
        omega
      have passed := @scanPast w (braced next more rest) c plain other n fits
      rw [← bracedCons] at passed
      obtain ⟨m,left,caught⟩ := ih nextPlain morePlain (n := n - (w ++ ['}']).length)
        (by simp only [List.length_append,List.length_cons,List.length_nil]; omega)
      refine ⟨m,left,?_⟩
      rw [names,← caught,← passed,List.append_assoc]
      · rfl
      · exact List.cons_ne_nil _ _

theorem bodyCons (p : Text × Action) (parts : List (Text × Action)) (tail : Text) :
    Body.text ⟨p::parts,tail⟩ = p.1 ++ '{':: '{'::(p.2.text ++ closed (Body.text ⟨parts,tail⟩)) := by
  simp [Body.text,partText,closed]

theorem scanBody {parts : List (Text × Action)} {tail : Text} (shaped : Body.Shaped ⟨parts,tail⟩) {n : Nat}
    (enough : (Body.text ⟨parts,tail⟩).length ≤ n) :
    (scan varRefRe n (Body.text ⟨parts,tail⟩)).map group = parts.flatMap (fun p => p.2.captured) := by
  induction parts generalizing n with
  | nil =>
    have passed : scan varRefRe n (tail ++ []) = scan varRefRe (n - tail.length) [] := by
      refine scanMiss enough fun before after split _ => ?_
      rw [List.append_nil]
      exact openMiss fun t same => shaped.tail before t (by rw [split,same])
    rw [List.append_nil] at passed
    rw [show Body.text ⟨[],tail⟩ = tail from rfl,passed,scanNil rfl]
    rfl
  | cons p parts ih =>
    obtain ⟨literal,texts⟩ := List.forall_mem_cons.mp shaped.texts
    obtain ⟨action,actions⟩ := List.forall_mem_cons.mp shaped.actions
    rw [bodyCons] at enough ⊢
    have passed : scan varRefRe n (p.1 ++ '{':: '{'::(p.2.text ++ closed (Body.text ⟨parts,tail⟩))) =
        scan varRefRe (n - p.1.length) ('{':: '{'::(p.2.text ++ closed (Body.text ⟨parts,tail⟩))) :=
      scanMiss (by rw [List.length_append] at enough; omega) fun _ _ => literalMiss literal
    have pieces := bracedCut ('{':: '{'::p.2.text) (Body.text ⟨parts,tail⟩)
    rw [List.cons_append,List.cons_append] at pieces
    obtain ⟨plain,others⟩ := cutPlain ('{':: '{'::p.2.text)
    rw [passed,← pieces]
    rw [← pieces,List.length_append] at enough
    have fits : (braced (cut ('{':: '{'::p.2.text)).1 (cut ('{':: '{'::p.2.text)).2 (Body.text ⟨parts,tail⟩)).length ≤
      n - p.1.length := by omega
    obtain ⟨m,left,caught⟩ := scanPieces plain others fits
    rw [caught,ih ⟨texts,actions,shaped.tail⟩ left,List.flatMap_cons]
    rfl

theorem capturedClear {a : Action} (shaped : a.Shaped) (clear : ∀ t ∈ a.tokens, t.1.Clear) :
    a.captured = a.fields.getLast?.toList := by
  obtain ⟨named,plain⟩ := actionRefs shaped clear
  have opening : '}' ∉ '{':: '{'::a.text := by simp [plain]
  rw [Action.captured,cutWhole opening,← named]
  rfl

theorem nameOrderInjective {a b : Text} (same : JsonValues.nameOrder a = JsonValues.nameOrder b) : a = b :=
  JsonValues.nameKeyInjective (f := (a,())) (g := (b,())) same

theorem referencesSorted (body : Text) :
    (references body).Pairwise (fun a b => JsonValues.nameOrder a < JsonValues.nameOrder b) := by
  refine Ordered.orderStrict ?_
  exact List.Nodup.map (fun _ _ => nameOrderInjective) (List.nodup_dedup _)

theorem memReferences {b : Body} (shaped : b.Shaped) (name : Text) :
    name ∈ references b.text ↔ ∃ p ∈ b.parts, name ∈ p.2.captured := by
  obtain ⟨parts,tail⟩ := b
  rw [references,Ordered.memOrder,List.mem_dedup,findAll,scanBody shaped (Nat.le_refl _),List.mem_flatMap]

def Body.Covered (b : Body) : Prop :=
  (∀ name ∈ b.fields, ∃ p ∈ b.parts, name ∈ p.2.captured) ∧ ∀ p ∈ b.parts, ∀ name ∈ p.2.captured, name ∈ b.fields

def Body.EveryLast (b : Body) : Prop := ∀ name ∈ b.fields, ∃ p ∈ b.parts, p.2.fields.getLast? = some name

theorem coveredClear {b : Body} (shaped : b.Shaped) (clear : b.Clear) : b.Covered ↔ b.EveryLast := by
  have each {p : Text × Action} (mem : p ∈ b.parts) {name : Text} : name ∈ p.2.captured ↔ p.2.fields.getLast? = some name := by
    rw [capturedClear (shaped.actions p mem) (clear p mem),Option.mem_toList]
  constructor
  · intro covered name field
    obtain ⟨p,mem,caught⟩ := covered.1 name field
    exact ⟨p,mem,(each mem).mp caught⟩
  · intro every
    refine ⟨fun name field => ?_,fun p mem name caught => ?_⟩
    · obtain ⟨p,mem,last⟩ := every name field
      exact ⟨p,mem,(each mem).mpr last⟩
    · exact List.mem_flatMap.mpr ⟨p,mem,List.mem_of_getLast? ((each mem).mp caught)⟩

theorem checkedGiven {ν : Type} {required : List Text} {given : Text → Option ν} (checked : checkRequired required given = [])
    {name : Text} (mem : name ∈ required) : (given name).isSome = true := by
  have absent := List.filter_eq_nil_iff.mp checked name mem
  cases value : given name with
  | none => simp [value] at absent
  | some v => rfl

theorem checkedExactly (required : List Text) :
    checkRequired required (fun name => if name ∈ required then some () else none) = [] := by
  refine List.filter_eq_nil_iff.mpr fun name mem => ?_
  simp [mem]

/-- The list is sorted and without duplicates. It has exactly the fields if and only if the actions capture these, and
passing the check implies that no variable is missing if and only if each field is captured. With clear tokens that is
each field being the last one of some action. -/
theorem requiredVarsIff {b : Body} (accepts : Text → Bool) (shaped : b.Shaped) (accepted : accepts b.text = true) :
    ∃ vars, parse accepts b.text = some vars ∧
      vars.Pairwise (fun a b => JsonValues.nameOrder a < JsonValues.nameOrder b) ∧ vars.Nodup ∧
      ((∀ name, name ∈ vars ↔ name ∈ b.fields) ↔ b.Covered) ∧
      ((∀ (ν : Type) (given : Text → Option ν), checkRequired vars given = [] → ∀ name ∈ b.fields, (given name).isSome = true) ↔
        ∀ name ∈ b.fields, ∃ p ∈ b.parts, name ∈ p.2.captured) ∧
      (b.Clear → (b.Covered ↔ b.EveryLast)) := by
  refine ⟨references b.text,if_pos accepted,referencesSorted _,?_,⟨?_,?_⟩,⟨?_,?_⟩,coveredClear shaped⟩
  · refine (referencesSorted b.text).imp ?_
    rintro a _ below rfl
    exact lt_irrefl _ below
  · intro exactly
    refine ⟨fun name field => (memReferences shaped name).mp ((exactly name).mpr field),fun p mem name caught => ?_⟩
    exact (exactly name).mp ((memReferences shaped name).mpr ⟨p,mem,caught⟩)
  · rintro ⟨every,only⟩ name
    rw [memReferences shaped]
    exact ⟨fun caught => caught.elim fun p both => only p both.1 name both.2,every name⟩
  · intro safe name field
    have given := safe Unit _ (checkedExactly (references b.text)) name field
    refine (memReferences shaped name).mp ?_
    by_contra absent
    rw [if_neg absent] at given
    cases given
  · intro every ν given checked name field
    exact checkedGiven checked ((memReferences shaped name).mpr (every name field))

theorem literalOf {t : Text} (plain : '{' ∉ t) : Literal t := by
  intro before after same
  have braces := congrArg (List.count '{') same
  rw [List.count_append,List.count_append,List.count_cons_self,List.count_cons_self,List.count_eq_zero.mpr plain] at braces
  simp only [List.count_cons_self,List.count_nil] at braces
  omega

theorem tailOf {t : Text} (plain : '{' ∉ t) (before after : Text) : t ≠ before ++ '{':: '{'::after := by
  rintro rfl
  simp at plain

def greeting : Body := ⟨[("Hi ".toList,⟨[' '],[(.field "Name".toList,[' '])]⟩)],['!']⟩

theorem greetingListed : greeting.EveryLast ∧
    ∃ vars, parse (fun _ => true) greeting.text = some vars ∧ ∀ name, name ∈ vars ↔ name ∈ greeting.fields := by
  have shaped : greeting.Shaped := by
    refine ⟨List.forall_mem_singleton.mpr (literalOf (by decide)),List.forall_mem_singleton.mpr ⟨?_,?_,?_⟩,tailOf (by decide)⟩
    · exact List.all_eq_true.mp (by decide)
    · exact List.all_eq_true.mp (by decide)
    · exact List.forall_mem_singleton.mpr (List.cons_ne_nil 'N' _)
  have clear : greeting.Clear :=
    List.forall_mem_singleton.mpr (List.forall_mem_singleton.mpr ⟨'N',"ame".toList,rfl,by decide,
      List.all_eq_true.mp (by decide)⟩)
  have every : greeting.EveryLast := List.forall_mem_singleton.mpr ⟨_,List.mem_singleton.mpr rfl,rfl⟩
  obtain ⟨vars,parsed,_,_,exactly,_,clearly⟩ := requiredVarsIff (fun _ => true) shaped rfl
  exact ⟨every,vars,parsed,exactly.mpr ((clearly clear).mpr every)⟩

def pair : Body :=
  ⟨[([],⟨[],[(.word "printf".toList,[' ']),(.constant "\"%s %s\"".toList,[' ']),(.field ['A'],[' ']),(.field ['B'],[])]⟩)],[]⟩

theorem firstFieldUnlisted : ¬ ∀ (accepts : Text → Bool) (b : Body), b.Shaped → accepts b.text = true →
    ∃ vars, parse accepts b.text = some vars ∧ ∀ name, name ∈ vars ↔ name ∈ b.fields := by
  intro complete
  have shaped : pair.Shaped := by
    refine ⟨List.forall_mem_singleton.mpr (literalOf (by decide)),List.forall_mem_singleton.mpr ⟨nofun,?_,?_⟩,
      tailOf (by decide)⟩
    · have blank : ∀ c ∈ [' '], gapChar c = true := List.all_eq_true.mp (by decide)
      exact ⟨blank,by decide,blank,by decide,blank,by decide,nofun⟩
    · simp only [List.forall_mem_cons]
      have letters : ∀ c ∈ "printf".toList, identChar c = true := List.all_eq_true.mp (by decide)
      exact ⟨letters,trivial,List.cons_ne_nil _ _,List.cons_ne_nil _ _,nofun⟩
  obtain ⟨vars,parsed,exactly⟩ := complete (fun _ => true) pair shaped rfl
  have listed : ['A'] ∈ vars := (exactly ['A']).mpr (by decide)
  cases Option.some.inj parsed
  revert listed
  decide +kernel

end Notifyd.RequiredVars
