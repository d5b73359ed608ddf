import Notifyd.Producers
import Notifyd.Terminal

/-! When an outbox row is retired. `publishRow` does it after the broker's confirm. `markFailure` does it after
the last attempt, whether or not its `MarkDeadLetter` went through, and by then a replay may have put the
notification back to `pending`. -/
namespace Notifyd.Retirement
open Domain Store Calls Delivery

def terminal : Status → Bool
  | .deadLetter | .cancelled | .sent => true
  | _ => false

structure Traced where
  state : State
  confirmed : List Payload

def confirms (s : State) : Action → List Payload
  | .dispatch d (.publish .ok _) => ((s.dispatchers d).map (fun b => b.row.payload)).toList
  | _ => []

def traced (t : Traced) (a : Action) : Option Traced :=
  (step t.state a).map (fun s => ⟨s,confirms t.state a ++ t.confirmed⟩)

def start : Traced := ⟨initial,[]⟩

def Safe (t : Traced) (r : OutboxRow) : Prop :=
  r.payload ∈ t.confirmed ∨ ∃ x, t.state.db.row r.notificationId = some x ∧ terminal x.status = true

def Retires (s : State) (a : Action) (o : OutboxId) : Prop :=
  ∃ d reply b next, a = .dispatch d reply ∧ s.dispatchers d = some b ∧
    Outbox.step b reply = some (some (.markOutboxPublished o),next)

def givenUp : Outbox.Phase → Bool
  | .insertDead _ | .markTerminated => true
  | _ => false

def Guarded (t : Traced) : Action → Prop
  | .dispatch d (.db .failed) => ∀ b err, t.state.dispatchers d = some b → b.phase = .markDead err → Safe t b.row
  | .replayCommit k o => o ≠ .failed → ∀ tx d b, t.state.replays k = some tx → t.state.dispatchers d = some b →
      givenUp b.phase = true → b.row.notificationId = tx.id → b.row.payload ∈ t.confirmed
  | _ => True

def PhaseOk (t : Traced) (b : Outbox.Batch) : Prop :=
  (b.phase = .markPublished → b.row.payload ∈ t.confirmed) ∧ (givenUp b.phase = true → Safe t b.row)

structure Inv (t : Traced) : Prop where
  faithful : Producers.Inv t.state
  routed : Routing.Inv t.state
  phases : ∀ d b, t.state.dispatchers d = some b → PhaseOk t b

theorem tracedStep {t t' : Traced} {a} (taken : traced t a = some t') :
    step t.state a = some t'.state ∧ t'.confirmed = confirms t.state a ++ t.confirmed := by
  obtain ⟨s,moved,rfl⟩ := Option.map_eq_some_iff.mp taken
  exact ⟨moved,rfl⟩

theorem confirmedStays {t t' : Traced} {a p} (taken : traced t a = some t') (mem : p ∈ t.confirmed) : p ∈ t'.confirmed := by
  rw [(tracedStep taken).2]
  exact List.mem_append_right _ mem

theorem nextTerminal {now : Nat} {st : RowStmt} {x : Notification} (ended : terminal x.status = true)
    (kept : st ≠ .replayReset) : terminal (st.next now x).status = true := by
  unfold RowStmt.next
  split
  · rename_i hit
    have hits := hit.1
    cases status : x.status <;> rw [status] at ended <;> try contradiction
    all_goals cases st <;> simp_all [RowStmt.guard,RowStmt.set,terminal,Status.claimable,Status.cancellable]
  · exact ended

theorem safeStep {t t' : Traced} {a} {r : OutboxRow} (taken : traced t a = some t') (safe : Safe t r)
    (spared : ∀ k o tx, a = .replayCommit k o → o ≠ .failed → t.state.replays k = some tx → r.notificationId = tx.id →
      r.payload ∈ t.confirmed) : Safe t' r := by
  obtain ⟨moved,_⟩ := tracedStep taken
  rcases safe with mem | ⟨x,found,ended⟩
  · exact .inl (confirmedStays taken mem)
  · obtain ⟨y,after⟩ := rowStays moved found
    rcases rowStep moved after with same | ⟨x',st,before,issues,rfl⟩ | ⟨absent,_⟩
    · cases Option.some.inj (found.symm.trans same)
      exact .inr ⟨x,after,ended⟩
    · cases Option.some.inj (found.symm.trans before)
      by_cases reset : st = .replayReset
      · obtain ⟨k,tx,o,action,begun,named,done⟩ := Terminal.issuesReset issues reset
        exact .inl (confirmedStays taken (spared k o tx action done begun named.symm))
      · exact .inr ⟨_,after,nextTerminal ended reset⟩
    · rw [absent] at found
      contradiction

theorem dispatchSafe {t t' : Traced} {d reply} {r : OutboxRow} (taken : traced t (.dispatch d reply) = some t')
    (safe : Safe t r) : Safe t' r := safeStep taken safe (fun _ _ _ action => nomatch action)

theorem startPhase {pairs b} (started : Outbox.start pairs = some b) : b.phase = .publish := by
  cases pairs with
  | nil => contradiction
  | cons head rest =>
    cases Option.some.inj started
    rfl

theorem publishOk {t : Traced} {b : Outbox.Batch} (phase : b.phase = .publish) : PhaseOk t b := by
  refine ⟨fun other => ?_,fun other => ?_⟩
  · rw [phase] at other
    cases other
  · rw [phase] at other
    cases other

theorem rowNamed {db : Db} {r : OutboxRow} (faithful : Producers.RowFaithful db r) :
    extractNotificationID r.payload = some r.notificationId ∧ ∃ x, db.row r.notificationId = some x := by
  obtain ⟨x,found,_,payload,_⟩ := faithful
  exact ⟨by rw [payload]; rfl,x,found⟩

theorem deadTerminal {now : Nat} {e : String} {x : Notification} (checks : Checks x) :
    terminal ((RowStmt.markDeadLetter e).next now x).status = true := by
  by_cases sent : x.status = .sent
  · exact nextTerminal (by rw [sent]; rfl) (by simp)
  · rw [nextHit checks rfl (fun same => absurd same sent)]
    rfl

inductive PhaseMoves (b : Outbox.Batch) : Outbox.Reply → Outbox.Phase → Prop where
  | confirmed {err} : PhaseMoves b (.publish .ok err) .markPublished
  | failed {o err} : PhaseMoves b (.publish o err) (Outbox.afterFailure b.row err)
  | published {o} : PhaseMoves b (.db o) .markQueued
  | dead {o err} (phase : b.phase = .markDead err) : PhaseMoves b (.db o) (.insertDead err)
  | inserted {o err} (phase : b.phase = .insertDead err) : PhaseMoves b (.db o) .markTerminated

theorem phaseMoves {b r e b'} (moved : Outbox.step b r = some (e,some b')) :
    b'.phase = .publish ∨ b'.row = b.row ∧ PhaseMoves b r b'.phase := by
  cases r with
  | publish o err =>
    simp only [Outbox.step] at moved
    split at moved <;> try contradiction
    cases moved
    cases o with
    | ok => exact .inr ⟨rfl,.confirmed⟩
    | failed => exact .inr ⟨rfl,.failed⟩
    | lost => exact .inr ⟨rfl,.failed⟩
  | db o =>
    simp only [Outbox.step] at moved
    split at moved <;> try contradiction
    all_goals obtain ⟨_,next⟩ := Prod.mk.inj (Option.some.inj moved)
    · split at next
      · cases Option.some.inj next
        exact .inr ⟨rfl,.published⟩
      · exact .inl (startPhase next)
    · exact .inl (startPhase next)
    · cases Option.some.inj next
      exact .inr ⟨rfl,.dead ‹_›⟩
    · cases Option.some.inj next
      exact .inr ⟨rfl,.inserted ‹_›⟩
    · exact .inl (startPhase next)
    · exact .inl (startPhase next)

theorem deadSafe {t t' : Traced} {d o b err} (inv : Inv t) (guarded : Guarded t (.dispatch d (.db o)))
    (taken : traced t (.dispatch d (.db o)) = some t') (busy : t.state.dispatchers d = some b)
    (phase : b.phase = .markDead err) : Safe t' b.row := by
  by_cases failed : o = .failed
  · subst failed
    exact dispatchSafe taken (guarded b err busy phase)
  · obtain ⟨named,x,found⟩ := rowNamed (inv.faithful.batches d b busy b.id b.row List.mem_cons_self)
    obtain ⟨moved,_⟩ := tracedStep taken
    have effect : Outbox.step b (.db o) =
        some (some (.exec (.markDeadLetter err) b.row.notificationId),some {b with phase := .insertDead err}) := by
      simp only [Outbox.step,phase,named]
      rw [doesSome.mpr ⟨failed,rfl⟩]
    have issued := movesIssued (stepMoves moved) (.dispatch busy effect)
    rw [found] at issued
    exact .inr ⟨_,issued,deadTerminal (rowChecks found)⟩

theorem phaseStep {t t' : Traced} {a d b'} (inv : Inv t) (guarded : Guarded t a) (taken : traced t a = some t')
    (busy : t'.state.dispatchers d = some b') : PhaseOk t' b' := by
  obtain ⟨moved,more⟩ := tracedStep taken
  have moves := dispatchersStep moved d
  rw [busy] at moves
  generalize same : some b' = now at moves
  cases moves with
  | still off =>
    have before := inv.phases d b' same.symm
    refine ⟨fun phase => confirmedStays taken (before.1 phase),fun ended => safeStep taken (before.2 ended) ?_⟩
    intro k o tx action done begun named
    subst action
    exact guarded done tx d b' begun same.symm ended named
  | claims => exact publishOk (startPhase same.symm)
  | @moves r b e next action before next_ =>
    subst action same
    have ok := inv.phases d b before
    rcases phaseMoves next_ with fresh | ⟨row,moves⟩
    · exact publishOk fresh
    · generalize at_ : b'.phase = phase at moves
      unfold PhaseOk
      rw [row,at_]
      cases moves with
      | confirmed =>
        refine ⟨fun _ => ?_,nofun⟩
        rw [more]
        simp only [confirms,before,Option.map_some,Option.toList_some]
        exact List.mem_append_left _ (List.mem_singleton_self _)
      | @failed o err =>
        -- a row without a notification id would go straight to its end
        have named := (rowNamed (inv.faithful.batches d b before b.id b.row List.mem_cons_self)).1
        simp only [Outbox.afterFailure,named,Option.isSome_some,if_true]
        split <;> exact ⟨nofun,nofun⟩
      | published => exact ⟨nofun,nofun⟩
      | dead dying => exact ⟨nofun,fun _ => deadSafe inv guarded taken before dying⟩
      | inserted dying => exact ⟨nofun,fun _ => dispatchSafe taken (ok.2 (by rw [dying]; rfl))⟩
  | dies => contradiction

theorem invStep (t : Traced) (a : Action) (t' : Traced) (inv : Inv t) (guarded : Guarded t a)
    (taken : traced t a = some t') : Inv t' := by
  have moved := (tracedStep taken).1
  exact ⟨Producers.invStep _ a _ inv.faithful moved,Routing.invStep inv.routed moved,
    fun d b busy => phaseStep inv guarded taken busy⟩

theorem invStart : Inv start := by
  refine ⟨Producers.invInitial,Routing.invInitial,fun d b busy => ?_⟩
  cases busy

theorem changedRetires {s t : State} {a} {o : OutboxId} {r r'} (taken : step s a = some t) (stored : s.db.outbox[o]? = some r)
    (after : t.db.outbox[o]? = some r') (changed : r'.publishedAt ≠ r.publishedAt) :
    ∃ d reply b, a = .dispatch d reply ∧ s.dispatchers d = some b ∧ b.id = o ∧ retires b := by
  obtain ⟨r'',found,_,same | retired⟩ := outboxStep taken stored
  · cases Option.some.inj (after.symm.trans found)
    exact absurd same changed
  · exact retired

theorem retiresBatch {s : State} {a} {o : OutboxId} (retired : Retires s a o) :
    ∃ d reply b, a = .dispatch d reply ∧ s.dispatchers d = some b ∧ b.id = o ∧ retires b := by
  obtain ⟨d,reply,b,next,action,busy,moved⟩ := retired
  exact ⟨d,reply,b,action,busy,Outbox.movesPublished (Outbox.stepMoves moved) rfl⟩

theorem retiredSafely {actions : List Action} {t : Traced} (guarded : Runs.Meets traced Guarded start actions)
    (ran : Runs.run traced start actions = some t) : ∀ a t', traced t a = some t' → ∀ (o : OutboxId) r r',
      t.state.db.outbox[o]? = some r → t'.state.db.outbox[o]? = some r' →
      Retires t.state a o ∨ r'.publishedAt ≠ r.publishedAt → Safe t' r' := by
  intro a t' taken o r r' stored after either
  have inv := Runs.guardedInvariant invStep invStart guarded ran
  obtain ⟨moved,_⟩ := tracedStep taken
  have batch : ∃ d reply b, a = .dispatch d reply ∧ t.state.dispatchers d = some b ∧ b.id = o ∧ retires b :=
    either.elim retiresBatch (changedRetires moved stored after)
  obtain ⟨d,reply,b,rfl,busy,rfl,parting⟩ := batch
  have safe : Safe t b.row := by
    obtain ⟨published,ended⟩ := inv.phases d b busy
    rcases parting with phase | phase
    · exact .inl (published phase)
    · exact ended (by rw [phase]; rfl)
  obtain ⟨found,here,same⟩ := inv.routed.batches d b busy b.id b.row List.mem_cons_self
  cases Option.some.inj (stored.symm.trans here)
  obtain ⟨last,there,kept,_⟩ := outboxStep moved stored
  cases Option.some.inj (after.symm.trans there)
  have still := dispatchSafe taken safe
  unfold Safe at still ⊢
  rw [kept.1,kept.2.2,same.1,same.2.2]
  exact still

def exhausted : List Action :=
  Action.create ⟨none,"c"⟩ "" none ⟨.sms,"+905551234567","hi",none,.normal,none⟩ ::
    (List.replicate 9 [Action.claimOutbox 0 50 [],.dispatch 0 (.publish .failed "down"),.dispatch 0 (.db .ok)]).flatten ++
    [Action.claimOutbox 0 50 [],.dispatch 0 (.publish .failed "down")]

def buried : List Action := exhausted ++ [Action.dispatch 0 (.db .ok),.dispatch 0 (.db .ok)]

def unburied : List Action := exhausted ++ [Action.dispatch 0 (.db .failed),.dispatch 0 (.db .ok)]

def unguarded : Action → Bool
  | .dispatch _ (.db .failed) => false
  | .replayCommit _ _ => false
  | _ => true

theorem unguardedMeets {actions : List Action} (free : actions.all unguarded = true) :
    Runs.Meets traced Guarded start actions := by
  apply Runs.meetsAll
  intro a mem t
  have ok := List.all_eq_true.mp free a mem
  unfold Guarded
  split
  · cases ok
  · cases ok
  · trivial

theorem deadRowRetiredSafely : ∃ t t' r r', Runs.run traced start buried = some t ∧
    traced t (.dispatch 0 (.db .ok)) = some t' ∧ t.state.db.outbox[0]? = some r ∧ t'.state.db.outbox[0]? = some r' ∧
    r.publishedAt = none ∧ r'.publishedAt = some 0 ∧ t'.confirmed = [] ∧ Safe t' r' := by
  have before : (Runs.run traced start buried).map
      (fun t => ((t.state.db.outbox[0]?).map OutboxRow.publishedAt,(traced t (.dispatch 0 (.db .ok))).map (fun t' =>
        (t'.confirmed,(t'.state.db.outbox[0]?).map OutboxRow.publishedAt)))) =
      some (some none,some ([],some (some 0))) := by decide +kernel
  obtain ⟨t,ran,pair⟩ := Option.map_eq_some_iff.mp before
  obtain ⟨first,second⟩ := Prod.mk.inj pair
  obtain ⟨r,stored,unpublished⟩ := Option.map_eq_some_iff.mp first
  obtain ⟨t',taken,pair⟩ := Option.map_eq_some_iff.mp second
  obtain ⟨nothing,last⟩ := Prod.mk.inj pair
  obtain ⟨r',after,published⟩ := Option.map_eq_some_iff.mp last
  have guarded := unguardedMeets (show buried.all unguarded = true by decide +kernel)
  have changed : r'.publishedAt ≠ r.publishedAt := by rw [published,unpublished]; simp
  exact ⟨t,t',r,r',ran,taken,stored,after,unpublished,published,nothing,
    retiredSafely guarded ran _ t' taken 0 r r' stored after (.inr changed)⟩

theorem pendingRowRetired : ¬ ∀ actions t, Runs.run traced start actions = some t → ∀ a t', traced t a = some t' →
    ∀ (o : OutboxId) r r', t.state.db.outbox[o]? = some r → t'.state.db.outbox[o]? = some r' →
    Retires t.state a o ∨ r'.publishedAt ≠ r.publishedAt → Safe t' r' := by
  intro always
  have before : (Runs.run traced start unburied).map
      (fun t => ((t.state.db.outbox[0]?).map OutboxRow.publishedAt,(traced t (.dispatch 0 (.db .ok))).map (fun t' =>
        (t'.confirmed,(t'.state.db.outbox[0]?).map OutboxRow.publishedAt)))) =
      some (some none,some ([],some (some 0))) := by decide +kernel
  have about : (Runs.run traced start unburied).map
      (fun t => (traced t (.dispatch 0 (.db .ok))).map (fun t' =>
        (t'.state.status 0,(t'.state.db.outbox[0]?).map OutboxRow.notificationId))) =
      some (some (some .pending,some 0)) := by decide +kernel
  obtain ⟨t,ran,pair⟩ := Option.map_eq_some_iff.mp before
  obtain ⟨first,second⟩ := Prod.mk.inj pair
  obtain ⟨r,stored,unpublished⟩ := Option.map_eq_some_iff.mp first
  obtain ⟨t',taken,pair⟩ := Option.map_eq_some_iff.mp second
  obtain ⟨nothing,last⟩ := Prod.mk.inj pair
  obtain ⟨r',after,published⟩ := Option.map_eq_some_iff.mp last
  rw [ran,Option.map_some,taken,Option.map_some,after,Option.map_some] at about
  simp only [Option.some.injEq,Prod.mk.injEq] at about
  obtain ⟨waiting,owner⟩ := about
  have changed : r'.publishedAt ≠ r.publishedAt := by rw [published,unpublished]; simp
  rcases always _ t ran _ t' taken 0 r r' stored after (.inr changed) with mem | ⟨x,found,ended⟩
  · rw [nothing] at mem
    cases mem
  · rw [owner] at found
    rw [State.status,found] at waiting
    rw [Option.some.inj waiting] at ended
    cases ended

end Notifyd.Retirement
