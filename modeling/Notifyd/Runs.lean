import Mathlib.Logic.Function.Basic
import Mathlib.Data.List.Basic

/-! Runs of a partial step function over a list of labels. A label that is not enabled ends the
run with `none`. The invariant rules below are stated once, for any state and label type. -/
namespace Notifyd.Runs

variable {σ α : Type}

theorem updateSome {ι β : Type} [DecidableEq ι] {f : ι → Option β} {i j : ι} {x y : β}
    (found : Function.update f i (some x) j = some y) : j = i ∧ y = x ∨ j ≠ i ∧ f j = some y := by
  by_cases same : j = i
  · subst same
    rw [Function.update_self] at found
    exact .inl ⟨rfl,(Option.some.inj found).symm⟩
  · rw [Function.update_of_ne same] at found
    exact .inr ⟨same,found⟩

def run (step : σ → α → Option σ) : σ → List α → Option σ
  | s,[] => some s
  | s,a::rest => do
      let t ← step s a
      run step t rest

theorem ended {o : Option σ} (start : σ) (ok : o.isSome = true) : o = some (o.getD start) := by
  cases o with
  | none => contradiction
  | some s => rfl

def outputs {β : Type} (step : σ → α → Option σ) (out : σ → α → List β) : σ → List α → List β
  | _,[] => []
  | s,a::rest => out s a ++ (step s a).elim [] (fun t => outputs step out t rest)

theorem outputsCons {β : Type} {step : σ → α → Option σ} {out : σ → α → List β} {s t a} {rest : List α}
    (taken : step s a = some t) : outputs step out s (a::rest) = out s a ++ outputs step out t rest := by
  simp only [outputs,taken,Option.elim_some]

theorem runCons {step : σ → α → Option σ} {s u a rest} :
    run step s (a::rest) = some u ↔ ∃ t, step s a = some t ∧ run step t rest = some u := by
  simp only [run,bind,Option.bind_eq_some_iff]

theorem runAppend {step : σ → α → Option σ} {s u xs ys} :
    run step s (xs ++ ys) = some u ↔ ∃ t, run step s xs = some t ∧ run step t ys = some u := by
  induction xs generalizing s with
  | nil => simp [run]
  | cons a rest ih =>
    rw [List.cons_append,runCons]
    constructor
    · rintro ⟨t,first,later⟩
      obtain ⟨v,left,right⟩ := ih.mp later
      exact ⟨v,runCons.mpr ⟨t,first,left⟩,right⟩
    · rintro ⟨v,left,right⟩
      obtain ⟨t,first,middle⟩ := runCons.mp left
      exact ⟨t,first,ih.mpr ⟨v,middle,right⟩⟩

def Meets (step : σ → α → Option σ) (cond : σ → α → Prop) : σ → List α → Prop
  | _,[] => True
  | s,a::rest => cond s a ∧ ∀ t, step s a = some t → Meets step cond t rest

theorem meetsPrefix {step : σ → α → Option σ} {cond s xs ys}
    (meets : Meets step cond s (xs ++ ys)) : Meets step cond s xs := by
  induction xs generalizing s with
  | nil => trivial
  | cons a rest ih => exact ⟨meets.1,fun t taken => ih (meets.2 t taken)⟩

theorem meetsSuffix {step : σ → α → Option σ} {cond s t xs ys}
    (meets : Meets step cond s (xs ++ ys)) (ok : run step s xs = some t) : Meets step cond t ys := by
  induction xs generalizing s with
  | nil =>
    cases Option.some.inj ok
    exact meets
  | cons a rest ih =>
    obtain ⟨u,first,later⟩ := runCons.mp ok
    exact ih (meets.2 u first) later

theorem meetsOf {step : σ → α → Option σ} {cond : σ → α → Prop} {s xs}
    (each : ∀ before a after t, xs = before ++ a::after → run step s before = some t → cond t a) :
    Meets step cond s xs := by
  induction xs generalizing s with
  | nil => trivial
  | cons a rest ih =>
    refine ⟨each [] a rest s rfl rfl,fun t taken => ih ?_⟩
    intro before b after u split ok
    exact each (a::before) b after u (by rw [split]; rfl) (runCons.mpr ⟨t,taken,ok⟩)

theorem meetsAll {step : σ → α → Option σ} {cond : σ → α → Prop} {s xs}
    (each : ∀ a ∈ xs, ∀ t, cond t a) : Meets step cond s xs := by
  apply meetsOf
  intro before a after t split _
  exact each a (by simp [split]) t

theorem meetsAppend {step : σ → α → Option σ} {cond : σ → α → Prop} {s xs ys} (left : Meets step cond s xs)
    (right : ∀ t, run step s xs = some t → Meets step cond t ys) : Meets step cond s (xs ++ ys) := by
  induction xs generalizing s with
  | nil => exact right s rfl
  | cons a rest ih =>
    refine ⟨left.1,fun t taken => ih (left.2 t taken) (fun u later => ?_)⟩
    exact right u (runCons.mpr ⟨t,taken,later⟩)

theorem meetsBoth {step : σ → α → Option σ} {left right : σ → α → Prop} {s xs} (first : Meets step left s xs)
    (second : Meets step right s xs) : Meets step (fun t a => left t a ∧ right t a) s xs := by
  induction xs generalizing s with
  | nil => trivial
  | cons a rest ih => exact ⟨⟨first.1,second.1⟩,fun t taken => ih (first.2 t taken) (second.2 t taken)⟩

theorem meetsFirst {step : σ → α → Option σ} {cond : σ → α → Prop} {s xs} (fails : ¬ Meets step cond s xs) :
    ∃ before a after t, xs = before ++ a::after ∧ run step s before = some t ∧ Meets step cond s before ∧ ¬ cond t a := by
  induction xs generalizing s with
  | nil => exact absurd trivial fails
  | cons a rest ih =>
    by_cases first : cond s a
    · have later : ¬ ∀ t, step s a = some t → Meets step cond t rest := fun all => fails ⟨first,all⟩
      simp only [not_forall] at later
      obtain ⟨t,taken,breaks⟩ := later
      obtain ⟨before,b,after,u,split,ok,meets,ends⟩ := ih breaks
      refine ⟨a::before,b,after,u,by rw [split]; rfl,runCons.mpr ⟨t,taken,ok⟩,⟨first,fun t' taken' => ?_⟩,ends⟩
      cases Option.some.inj (taken.symm.trans taken')
      exact meets
    · exact ⟨[],a,rest,s,rfl,rfl,trivial,first⟩

def checks (step : σ → α → Option σ) (check : σ → α → Bool) : σ → List α → Bool
  | _,[] => true
  | s,a::rest => check s a && (step s a).all (fun t => checks step check t rest)

theorem meetsChecks {step : σ → α → Option σ} {check : σ → α → Bool} {cond : σ → α → Prop}
    (sound : ∀ s a, check s a = true → cond s a) {s xs} (ok : checks step check s xs = true) :
    Meets step cond s xs := by
  induction xs generalizing s with
  | nil => trivial
  | cons a rest ih =>
    obtain ⟨first,later⟩ := Bool.and_eq_true_iff.mp ok
    refine ⟨sound s a first,fun t taken => ih ?_⟩
    rw [taken] at later
    exact later

theorem meetsDecided {step : σ → α → Option σ} {cond : σ → α → Prop} [∀ s a, Decidable (cond s a)] {s xs}
    (ok : checks step (fun s a => decide (cond s a)) s xs = true) : Meets step cond s xs :=
  meetsChecks (fun _ _ => of_decide_eq_true) ok

theorem guardedInvariant {step : σ → α → Option σ} {cond : σ → α → Prop} {inv : σ → Prop}
    (keep : ∀ s a t, inv s → cond s a → step s a = some t → inv t)
    {s t xs} (start : inv s) (meets : Meets step cond s xs) (ok : run step s xs = some t) :
    inv t := by
  induction xs generalizing s with
  | nil =>
    cases Option.some.inj ok
    exact start
  | cons a rest ih =>
    obtain ⟨u,first,later⟩ := runCons.mp ok
    exact ih (keep s a u start meets.1 first) (meets.2 u first) later

theorem outputsInvariant {β : Type} {step : σ → α → Option σ} {out : σ → α → List β} {cond : σ → α → Prop}
    {inv : σ → List β → Prop}
    (keep : ∀ s a t seen, inv s seen → cond s a → step s a = some t → inv t (seen ++ out s a))
    {s t xs seen} (start : inv s seen) (meets : Meets step cond s xs) (ok : run step s xs = some t) :
    inv t (seen ++ outputs step out s xs) := by
  induction xs generalizing s seen with
  | nil =>
    cases Option.some.inj ok
    simpa only [outputs,List.append_nil] using start
  | cons a rest ih =>
    obtain ⟨u,first,later⟩ := runCons.mp ok
    rw [outputsCons first,← List.append_assoc]
    exact ih (keep s a u seen start meets.1 first) (meets.2 u first) later

theorem historyInvariant {η : Type} {step : σ → α → Option σ} {note : η → α → η} {cond : σ → α → Prop}
    {inv : η → σ → Prop} (keep : ∀ p s a t, inv p s → cond s a → step s a = some t → inv (note p a) t)
    {p s t xs} (start : inv p s) (meets : Meets step cond s xs) (ok : run step s xs = some t) :
    inv (xs.foldl note p) t := by
  induction xs generalizing p s with
  | nil =>
    cases Option.some.inj ok
    exact start
  | cons a rest ih =>
    obtain ⟨u,first,later⟩ := runCons.mp ok
    exact ih (keep p s a u start meets.1 first) (meets.2 u first) later

theorem invariant {step : σ → α → Option σ} {inv : σ → Prop}
    (keep : ∀ s a t, inv s → step s a = some t → inv t)
    {s t xs} (start : inv s) (ok : run step s xs = some t) : inv t := by
  have always : Meets step (fun _ _ => True) s xs := meetsAll (fun _ _ _ => trivial)
  exact guardedInvariant (fun s a t before _ => keep s a t before) start always ok

/- Unwinding: labels that are not `mine` leave the state alike to that of the run without them. -/
theorem runFiltered {step : σ → α → Option σ} {mine : α → Bool} {cond : σ → α → Prop} {alike : σ → σ → Prop}
    (visible : ∀ s p a t, alike s p → mine a = true → cond s a → step s a = some t →
      ∃ q, step p a = some q ∧ alike t q)
    (hidden : ∀ s p a t, alike s p → mine a = false → step s a = some t → alike t p)
    {s p t xs} (start : alike s p) (meets : Meets step cond s xs) (ok : run step s xs = some t) :
    ∃ q, run step p (xs.filter mine) = some q ∧ alike t q := by
  induction xs generalizing s p with
  | nil =>
    cases Option.some.inj ok
    exact ⟨p,rfl,start⟩
  | cons a rest ih =>
    obtain ⟨u,first,later⟩ := runCons.mp ok
    cases own : mine a with
    | true =>
      obtain ⟨v,copied,near⟩ := visible s p a u start own meets.1 first
      obtain ⟨q,last,same⟩ := ih near (meets.2 u first) later
      rw [List.filter_cons_of_pos own]
      exact ⟨q,runCons.mpr ⟨v,copied,last⟩,same⟩
    | false =>
      rw [List.filter_cons_of_neg (by simp [own])]
      exact ih (hidden s p a u start own first) (meets.2 u first) later

def Leads (step : σ → α → Option σ) (allowed : α → Prop) (s t : σ) : Prop :=
  ∃ xs, (∀ a ∈ xs, allowed a) ∧ run step s xs = some t

theorem leadsRefl {step : σ → α → Option σ} {allowed : α → Prop} (s : σ) : Leads step allowed s s :=
  ⟨[],fun _ mem => absurd mem (List.not_mem_nil),rfl⟩

theorem leadsOne {step : σ → α → Option σ} {allowed : α → Prop} {s t : σ} {a : α} (may : allowed a)
    (taken : step s a = some t) : Leads step allowed s t := by
  refine ⟨[a],fun b mem => ?_,runCons.mpr ⟨t,taken,rfl⟩⟩
  rw [List.mem_singleton.mp mem]
  exact may

theorem leadsTrans {step : σ → α → Option σ} {allowed : α → Prop} {s t u : σ} (first : Leads step allowed s t)
    (second : Leads step allowed t u) : Leads step allowed s u := by
  obtain ⟨xs,may,ok⟩ := first
  obtain ⟨ys,may',ok'⟩ := second
  refine ⟨xs ++ ys,fun a mem => ?_,runAppend.mpr ⟨t,ok,ok'⟩⟩
  rcases List.mem_append.mp mem with left | right
  · exact may a left
  · exact may' a right

theorem leadsDown {step : σ → α → Option σ} {allowed : α → Prop} {inv goal : σ → Prop} (rank : σ → Nat)
    (round : ∀ s, inv s → goal s ∨ ∃ t, Leads step allowed s t ∧ inv t ∧ rank t < rank s) {s : σ} (start : inv s) :
    ∃ t, Leads step allowed s t ∧ inv t ∧ goal t := by
  induction bound : rank s using Nat.strongRecOn generalizing s with
  | _ k ih =>
    subst bound
    rcases round s start with done | ⟨t,leads,kept,less⟩
    · exact ⟨s,leadsRefl s,start,done⟩
    · obtain ⟨u,more,last,done⟩ := ih (rank t) less kept rfl
      exact ⟨u,leadsTrans leads more,last,done⟩

theorem leadsInvariant {step : σ → α → Option σ} {allowed : α → Prop} {inv : σ → Prop}
    (keep : ∀ s a t, inv s → allowed a → step s a = some t → inv t) {s t : σ} (start : inv s)
    (leads : Leads step allowed s t) : inv t := by
  obtain ⟨xs,may,ok⟩ := leads
  have meets : Meets step (fun _ a => allowed a) s xs := meetsAll (fun a mem _ => may a mem)
  exact guardedInvariant keep start meets ok

end Notifyd.Runs
