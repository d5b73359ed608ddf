import Notifyd.Auth

/-! The budget of failed verifications for a key prefix. The gate reads the counter, the candidates are
verified, and the failure is counted, in three separate steps, so the budget is kept if each of the
requests that pass the gate has counted its failure before the next one comes to it. -/
namespace Notifyd.BruteForce
open Expiring Runs Auth
open Numerals (Bytes)

def slow : Phase → Bool
  | .select => true
  | .verify _ => true
  | .noteFailure => true
  | _ => false

variable (env : Environment) (p : Bytes)

def ofPrefix (req : Request) : Prop := req.raw.take keyPrefixLen = p

def Slow (s : State) (r : Nat) : Prop := ∃ req, s.requests r = some req ∧ ofPrefix p req ∧ slow req.phase = true

def gateOutput (s : State) : Label → List Phase
  | .advance r => match s.requests r with
    | some ⟨raw,_,_,.gate⟩ =>
        if raw.take keyPrefixLen = p then (middleware env s.now s.world raw .gate).toList.map Prod.snd else []
    | _ => []
  | _ => []

def Period (s : State) : Label → Prop
  | .tick d => ∀ e, s.world.failures p = some e → s.now + d < e.expiresAt
  | .advance r => ∀ req c rest, s.requests r = some req → ofPrefix p req → req.phase = .verify (c::rest) →
      env.verifyAPIKey req.raw c.hashedKey ≠ some true
  | _ => True

def Alone (s : State) : Label → Prop
  | .advance r => ∀ req, s.requests r = some req → ofPrefix p req → req.phase = .gate → ∀ other, ¬ Slow p s other
  | .abort r => ¬ Slow p s r
  | _ => True

def counted (s : State) : Nat := ((s.world.failures p).map Entry.value).getD 0

structure Budget (s : State) (seen : List Phase) : Prop where
  verdicts : ∀ phase ∈ seen, phase = .select ∨ phase = .refused 429
  live : ∀ e, s.world.failures p = some e → s.now < e.expiresAt
  limit : seen.count .select ≤ authFailureLimit + 1
  account : ((∀ r, ¬ Slow p s r) ∧ seen.count .select = counted p s) ∨
    ∃ r, Slow p s r ∧ (∀ other, Slow p s other → other = r) ∧ seen.count .select = counted p s + 1

variable {env p} {s t : State} {seen : List Phase}

theorem getCounted (live : ∀ e, s.world.failures p = some e → s.now < e.expiresAt) :
    (get s.now p s.world.failures).getD 0 = counted p s := by
  unfold counted
  cases stored : s.world.failures p with
  | none => rw [getAbsent stored]; rfl
  | some e => rw [getLive stored (live e stored)]; rfl

theorem slowPut {r other : Nat} {req : Request} :
    Slow p (s.put r req) other ↔ if other = r then ofPrefix p req ∧ slow req.phase = true else Slow p s other := by
  unfold Slow State.put
  by_cases same : other = r
  · subst same
    simp [Function.update_self]
  · simp [same]

theorem budgetFrame (budget : Budget p s seen) (live : ∀ e, t.world.failures p = some e → t.now < e.expiresAt)
    (counter : t.world.failures p = s.world.failures p) (same : ∀ r, Slow p t r ↔ Slow p s r) : Budget p t seen := by
  have total : counted p t = counted p s := by rw [counted,counted,counter]
  refine ⟨budget.verdicts,live,budget.limit,?_⟩
  simp only [same,total]
  exact budget.account

theorem frameWorld (budget : Budget p s seen) (now : t.now = s.now) (counter : t.world.failures p = s.world.failures p)
    (same : ∀ r, Slow p t r ↔ Slow p s r) : Budget p t seen := by
  refine budgetFrame budget (fun e stored => ?_) counter same
  rw [now]
  exact budget.live e (counter ▸ stored)

theorem middlewareSlow {now : Nat} {w w' : World} {raw : Bytes} {phase phase' : Phase}
    (wrong : ∀ c rest, phase = .verify (c::rest) → env.verifyAPIKey raw c.hashedKey ≠ some true)
    (moved : middleware env now w raw phase = some (w',phase')) :
    phase = .gate ∨ phase = .noteFailure ∨ phase ≠ .gate ∧ w'.failures = w.failures ∧ slow phase' = slow phase := by
  cases phase with
  | gate => exact .inl rfl
  | noteFailure => exact .inr (.inl rfl)
  | lookup =>
    cases Option.some.inj moved
    refine .inr (.inr ⟨nofun,rfl,?_⟩)
    split <;> rfl
  | marker hit =>
    cases Option.some.inj moved
    refine .inr (.inr ⟨nofun,rfl,?_⟩)
    split <;> rfl
  | invalidate =>
    cases Option.some.inj moved
    exact .inr (.inr ⟨nofun,rfl,rfl⟩)
  | select =>
    cases Option.some.inj moved
    exact .inr (.inr ⟨nofun,rfl,rfl⟩)
  | verify cands =>
    cases cands with
    | nil =>
      cases Option.some.inj moved
      exact .inr (.inr ⟨nofun,rfl,rfl⟩)
    | cons c rest =>
      simp only [middleware,if_neg (wrong c rest rfl)] at moved
      cases Option.some.inj moved
      exact .inr (.inr ⟨nofun,rfl,rfl⟩)
  | store k =>
    cases Option.some.inj moved
    exact .inr (.inr ⟨nofun,rfl,rfl⟩)
  | served k => cases moved
  | refused n => cases moved

theorem middlewareOther {now : Nat} {w w' : World} {raw : Bytes} {phase phase' : Phase}
    (other : p ≠ raw.take keyPrefixLen) (moved : middleware env now w raw phase = some (w',phase')) :
    w'.failures p = w.failures p := by
  unfold middleware at moved
  split at moved
  all_goals first
    | contradiction
    | (cases Option.some.inj moved; rfl)
    | (cases Option.some.inj moved; exact setOther other)

section Advance
variable {r : Nat} {req : Request} {world : World} {phase : Phase}

theorem advanceOther (budget : Budget p s seen) (found : s.requests r = some req) (other : ¬ ofPrefix p req)
    (moved : middleware env s.now s.world req.raw req.phase = some (world,phase)) :
    Budget p ({s with world := world}.put r {req with phase := phase}) seen := by
  refine frameWorld budget rfl (middlewareOther (Ne.symm other) moved) fun i => ?_
  rw [slowPut]
  split
  · rename_i same
    subst same
    refine iff_of_false (fun after => other after.1) ?_
    rintro ⟨before,stored,own,_⟩
    cases Option.some.inj (found.symm.trans stored)
    exact other own
  · exact Iff.rfl

theorem advanceStays (budget : Budget p s seen) (found : s.requests r = some req)
    (counter : world.failures = s.world.failures) (same : slow phase = slow req.phase) :
    Budget p ({s with world := world}.put r {req with phase := phase}) seen := by
  refine frameWorld budget rfl (congrFun counter p) fun i => ?_
  rw [slowPut]
  split
  · rename_i here
    subst here
    simp only [Slow,found,Option.some.injEq,exists_eq_left',same]
    exact Iff.rfl
  · exact Iff.rfl

theorem budgetRefused (budget : Budget p s seen) : Budget p s (seen ++ [Phase.refused 429]) := by
  have total : (seen ++ [Phase.refused 429]).count .select = seen.count .select := by
    rw [List.count_append]
    rfl
  refine ⟨?_,budget.live,total ▸ budget.limit,total ▸ budget.account⟩
  intro phase mem
  rcases List.mem_append.mp mem with before | last
  · exact budget.verdicts phase before
  · exact .inr (List.mem_singleton.mp last)

theorem advanceGate (budget : Budget p s seen) (found : s.requests r = some req) (own : ofPrefix p req)
    (gate : req.phase = .gate) (alone : ∀ other, ¬ Slow p s other)
    (moved : middleware env s.now s.world req.raw req.phase = some (world,phase)) :
    Budget p ({s with world := world}.put r {req with phase := phase}) (seen ++ [phase]) := by
  have total : seen.count .select = counted p s := by
    rcases budget.account with ⟨_,total⟩ | ⟨i,on,_⟩
    · exact total
    · exact absurd on (alone i)
  rw [gate] at moved
  simp only [middleware] at moved
  rw [show req.raw.take keyPrefixLen = p from own] at moved
  cases locked : (get s.now p s.world.failures).any (fun n => decide (authFailureLimit < n)) with
  | true =>
    rw [locked] at moved
    cases Option.some.inj moved
    exact budgetRefused (advanceStays budget found rfl (by rw [gate]; rfl))
  | false =>
    rw [locked] at moved
    cases Option.some.inj moved
    have below : counted p s ≤ authFailureLimit := by
      rw [← getCounted budget.live]
      cases stored : get s.now p s.world.failures with
      | none => exact Nat.zero_le _
      | some n =>
        rw [stored,Option.any_some,decide_eq_false_iff_not,not_lt] at locked
        exact locked
    have grown : (seen ++ [Phase.select]).count .select = counted p s + 1 := by
      rw [List.count_append,total]
      rfl
    refine ⟨?_,budget.live,grown ▸ Nat.succ_le_succ below,.inr ⟨r,?_,?_,grown⟩⟩
    · intro phase mem
      rcases List.mem_append.mp mem with before | last
      · exact budget.verdicts phase before
      · exact .inl (List.mem_singleton.mp last)
    · exact slowPut.mpr (by rw [if_pos rfl]; exact ⟨own,rfl⟩)
    · intro other on
      rw [slowPut] at on
      split at on
      · assumption
      · exact absurd on (alone other)

theorem advanceNote (budget : Budget p s seen) (found : s.requests r = some req) (own : ofPrefix p req)
    (note : req.phase = .noteFailure)
    (moved : middleware env s.now s.world req.raw req.phase = some (world,phase)) :
    Budget p ({s with world := world}.put r {req with phase := phase}) seen := by
  have on : Slow p s r := ⟨req,found,own,by rw [note]; rfl⟩
  obtain ⟨only,total⟩ : (∀ other, Slow p s other → other = r) ∧ seen.count .select = counted p s + 1 := by
    rcases budget.account with ⟨nobody,_⟩ | ⟨i,_,only,total⟩
    · exact absurd on (nobody r)
    · cases only r on
      exact ⟨only,total⟩
  rw [note] at moved
  simp only [middleware] at moved
  rw [show req.raw.take keyPrefixLen = p from own,getCounted budget.live] at moved
  cases Option.some.inj moved
  refine ⟨budget.verdicts,?_,budget.limit,.inl ⟨?_,?_⟩⟩
  · intro e stored
    cases Option.some.inj (setSame.symm.trans stored)
    exact Nat.lt_add_of_pos_right (by decide)
  · intro i after
    rw [slowPut] at after
    split at after
    · exact absurd after.2 Bool.false_ne_true
    · rename_i other
      exact other (only i after)
  · rw [total]
    show _ = ((set s.now authFailureWindow p (counted p s + 1) s.world.failures p).map Entry.value).getD 0
    rw [setSame]
    rfl

end Advance

section Step
variable {r : Nat} {req : Request} {world : World} {phase : Phase}

theorem outputGate (found : s.requests r = some req) (own : ofPrefix p req) (gate : req.phase = .gate)
    (moved : middleware env s.now s.world req.raw req.phase = some (world,phase)) :
    gateOutput env p s (.advance r) = [phase] := by
  obtain ⟨raw,start,returned,_⟩ := req
  cases gate
  simp only [gateOutput,found,if_pos (show raw.take keyPrefixLen = p from own),moved,Option.toList_some,List.map_cons,
    List.map_nil]

theorem outputSilent (found : s.requests r = some req) (off : ¬ (ofPrefix p req ∧ req.phase = .gate)) :
    gateOutput env p s (.advance r) = [] := by
  simp only [gateOutput,found]
  split
  · rename_i raw start returned same
    cases same
    exact if_neg fun own => off ⟨own,rfl⟩
  · rfl

theorem advanceStep (budget : Budget p s seen) (period : Period env p s (.advance r)) (alone : Alone p s (.advance r))
    (found : s.requests r = some req)
    (moved : middleware env s.now s.world req.raw req.phase = some (world,phase)) :
    Budget p ({s with world := world}.put r {req with phase := phase}) (seen ++ gateOutput env p s (.advance r)) := by
  by_cases own : ofPrefix p req
  · rcases middlewareSlow (fun c rest => period req c rest found own) moved with gate | note | ⟨off,counter,same⟩
    · rw [outputGate found own gate moved]
      exact advanceGate budget found own gate (alone req found own gate) moved
    · rw [outputSilent found (by rw [note]; rintro ⟨_,⟨⟩⟩),List.append_nil]
      exact advanceNote budget found own note moved
    · rw [outputSilent found (fun both => off both.2),List.append_nil]
      exact advanceStays budget found counter same
  · rw [outputSilent found (fun both => own both.1),List.append_nil]
    exact advanceOther budget found own moved

end Step

theorem budgetStep {a : Label} (budget : Budget p s seen) (period : Period env p s a) (alone : Alone p s a)
    (taken : step env s a = some t) : Budget p t (seen ++ gateOutput env p s a) := by
  cases stepMoves taken with
  | tick => exact (List.append_nil seen).symm ▸ budgetFrame budget period rfl fun _ => Iff.rfl
  | advance found moved => exact advanceStep budget period alone found moved
  | @arrive r header absent =>
    refine (List.append_nil seen).symm ▸ frameWorld budget rfl rfl fun i => ?_
    have off : slow (arrival header).2 = false := by
      unfold arrival
      split
      · rfl
      · split <;> rfl
    rw [slowPut]
    split
    · rename_i same
      subst same
      simp [Slow,absent,off]
    · exact Iff.rfl
  | @abort r req found =>
    refine (List.append_nil seen).symm ▸ frameWorld budget rfl rfl fun i => ?_
    rw [slowPut]
    split
    · rename_i same
      subst same
      exact iff_of_false (fun after => nomatch after.2) alone
    · exact Iff.rfl
  | revokeUpdate => exact (List.append_nil seen).symm ▸ frameWorld budget rfl rfl fun _ => Iff.rfl
  | revokeMark => exact (List.append_nil seen).symm ▸ frameWorld budget rfl rfl fun _ => Iff.rfl
  | revokeReturn => exact (List.append_nil seen).symm ▸ frameWorld budget rfl rfl fun _ => Iff.rfl
  | upsertAPIKey => exact (List.append_nil seen).symm ▸ frameWorld budget rfl rfl fun _ => Iff.rfl

theorem budgetHolds {labels : List Label} (nobody : ∀ r, ¬ Slow p s r) (uncounted : s.world.failures p = none)
    (period : Meets (step env) (Period env p) s labels) (alone : Meets (step env) (Alone p) s labels)
    (ok : run (step env) s labels = some t) :
    (outputs (step env) (gateOutput env p) s labels).count .select ≤ authFailureLimit + 1 ∧
      ∀ phase ∈ outputs (step env) (gateOutput env p) s labels, phase = .select ∨ phase = .refused 429 := by
  have start : Budget p s [] := by
    refine ⟨nofun,?_,Nat.zero_le _,.inl ⟨nobody,?_⟩⟩
    · intro e stored
      cases uncounted.symm.trans stored
    · rw [counted,uncounted]
      rfl
  have reached := @outputsInvariant _ _ _ (step env) (gateOutput env p) _ (Budget p)
    (fun _ _ _ _ before met taken => budgetStep before met.1 met.2 taken) _ _ _ _ start (meetsBoth period alone) ok
  exact ⟨reached.limit,reached.verdicts⟩

def header : Bytes := Utf8.bytes "Bearer aaaaaaaa-guess".toList

def guessed : Bytes := Utf8.bytes "aaaaaaaa".toList

def denying : Environment := ⟨fun _ => [],fun _ _ => some false⟩

theorem denyingPeriod {labels : List Label} (timeless : ∀ d, .tick d ∉ labels) :
    Meets (step denying) (Period denying guessed) s labels := by
  refine meetsAll fun a mem t => ?_
  cases a with
  | tick d => exact absurd mem (timeless d)
  | advance r => exact fun _ _ _ _ _ _ => nofun
  | arrive => trivial
  | abort => trivial
  | revokeUpdate => trivial
  | revokeMark => trivial
  | revokeReturn => trivial
  | upsertAPIKey => trivial

def attempt (r : Nat) : List Label := [.arrive r header,.advance r,.advance r,.advance r,.advance r,.advance r]

def attempts : List Label := (List.range 21).flatMap attempt ++ [Label.arrive 21 header,.advance 21,.advance 21]

def quiet (s : State) : Label → Bool
  | .advance r => ((s.requests r).map Request.phase != some .gate) ||
      (List.range 22).all (fun i => (s.requests i).all (fun req => !slow req.phase))
  | .arrive r _ => r < 22
  | _ => false

theorem attemptsRun : (run (step denying) (initial []) attempts).isSome = true ∧
    checks (step denying) quiet (initial []) attempts = true ∧
    outputs (step denying) (gateOutput denying guessed) (initial []) attempts =
      List.replicate 21 Phase.select ++ [Phase.refused 429] := by
  decide +kernel

def Within (s : State) : Prop := ∀ r, 22 ≤ r → s.requests r = none

theorem withinStep {a : Label} (before : Within s) (calm : quiet s a = true) (taken : step denying s a = some t) :
    Within t := by
  intro r above
  cases stepMoves taken with
  | @arrive i header absent =>
    have below : i < 22 := of_decide_eq_true calm
    exact (Function.update_of_ne (by omega) ..).trans (before r above)
  | @advance i req world phase found moved =>
    have below : i < 22 := Nat.lt_of_not_le fun far => by
      rw [before i far] at found
      cases found
    exact (Function.update_of_ne (by omega) ..).trans (before r above)
  | _ => cases calm

theorem attemptsAlone : Meets (step denying) (Alone guessed) (initial []) attempts := by
  have calm : Meets (step denying) (fun s a => quiet s a = true) (initial []) attempts :=
    meetsChecks (fun _ _ => id) attemptsRun.2.1
  refine meetsOf fun before a after u split ok => ?_
  rw [split] at calm
  have within : Within u := guardedInvariant (fun _ _ _ => withinStep) (fun _ _ => rfl) (meetsPrefix calm) ok
  have here : quiet u a = true := (meetsSuffix calm ok).1
  cases a with
  | advance r =>
    rintro req found _ gate other ⟨req',found',_,on⟩
    simp only [quiet,found,Option.map_some,gate,bne_self_eq_false,Bool.false_or] at here
    have below : other ∈ List.range 22 := List.mem_range.mpr (Nat.lt_of_not_le fun far => by
      rw [within other far] at found'
      cases found')
    have off := List.all_eq_true.mp here other below
    simp [found',on] at off
  | abort => cases here
  | _ => trivial

theorem attemptsInBudget :
    outputs (step denying) (gateOutput denying guessed) (initial []) attempts =
      List.replicate 21 Phase.select ++ [Phase.refused 429] ∧
    (outputs (step denying) (gateOutput denying guessed) (initial []) attempts).count .select ≤ authFailureLimit + 1 := by
  have nobody : ∀ r, ¬ Slow guessed (initial []) r := by
    rintro r ⟨req,found,_⟩
    cases found
  have timeless : ∀ d, Label.tick d ∉ attempts := by
    intro d
    simp [attempts,attempt]
  exact ⟨attemptsRun.2.2,
    (budgetHolds nobody rfl (denyingPeriod timeless) attemptsAlone (ended (initial []) attemptsRun.1)).1⟩

def rush (n : Nat) : List Label := (List.range n).flatMap (fun r => [.arrive r header,.advance r,.advance r])

theorem rushPasses : (run (step denying) (initial []) (rush 22)).isSome = true ∧
    (outputs (step denying) (gateOutput denying guessed) (initial []) (rush 22)).count .select = 22 := by
  decide +kernel

theorem rushOverBudget : ¬ ∀ (env : Environment) (keys : List ApiKey) (p : Bytes) (labels : List Label) (t : State),
    Meets (step env) (Period env p) (initial keys) labels → run (step env) (initial keys) labels = some t →
    (outputs (step env) (gateOutput env p) (initial keys) labels).count .select ≤ authFailureLimit + 1 := by
  intro bound
  have timeless : ∀ d, Label.tick d ∉ rush 22 := by
    intro d
    simp [rush]
  have within := bound denying [] guessed (rush 22) _ (denyingPeriod timeless) (ended (initial []) rushPasses.1)
  rw [rushPasses.2] at within
  exact absurd within (by decide)

end Notifyd.BruteForce
