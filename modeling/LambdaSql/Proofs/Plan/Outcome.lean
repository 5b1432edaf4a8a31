import LambdaSql.Plan.Projection

/-!
# Outcomes of planning

Planning reads a scope, changes the progress and may stop. Most statements about it are about runs
that end with a result, so they are put in terms of one relation: under a scope, planning goes from
one progress to another and gives a result. The relation is known for each building block of
planning, and a longer plan is taken apart along its steps.

## Main definitions

* `Planning.outcome` - how planning ends, and with which progress.
* `Planning.Gives` - planning ends with a result.

## Main results

* `Planning.gives_bind` - a plan of two steps gives what the second gives after the first.
* `Planning.gives_withFrame`, `Planning.gives_lookup` - reading and extending the scope.
* `Planning.gives_projected` - a projected expression, with what becomes of the aliases.
-/

namespace LambdaSql.Planning

variable {α β : Type} {s : Scope} {p p' : Progress}

/-- How planning ends under a scope and after some progress, and with which progress. -/
def outcome (act : Planning α) (s : Scope) (p : Progress) : Except Stop α × Progress := act s p

/-- Under a scope, planning goes from one progress to another and gives a result. -/
def Gives (act : Planning α) (s : Scope) (p : Progress) (a : α) (p' : Progress) : Prop :=
  act.outcome s p = (.ok a, p')

/-- A run has one result. -/
theorem Gives.unique {act : Planning α} {a b : α} {q q' : Progress} (h : act.Gives s p a q)
    (h' : act.Gives s p b q') : a = b ∧ q = q' := by
  simpa using h.symm.trans h'

/-! ## Steps -/

/-- The second step of a plan goes on from the result of the first. -/
theorem outcome_bind (x : Planning α) (f : α → Planning β) :
    (x >>= f).outcome s p =
      match x.outcome s p with
      | (.ok a, q) => (f a).outcome s q
      | (.error e, q) => (.error e, q) := by
  unfold outcome
  show (ExceptT.bind (x s) fun a => f a s) p = _
  simp only [ExceptT.bind, ExceptT.mk, bind, StateT.bind]
  rcases (x s p : Except Stop α × Progress) with ⟨_ | a, q⟩ <;> rfl

/-- A result is given with the progress as it was. -/
@[simp]
theorem gives_pure {a b : α} : (pure a : Planning α).Gives s p b p' ↔ b = a ∧ p' = p := by
  constructor
  · intro h
    cases h
    exact ⟨rfl, rfl⟩
  · rintro ⟨rfl, rfl⟩
    rfl

/-- A plan of two steps gives what the second gives after the first. -/
@[simp]
theorem gives_bind {x : Planning α} {f : α → Planning β} {b : β} :
    (x >>= f).Gives s p b p' ↔ ∃ a q, x.Gives s p a q ∧ (f a).Gives s q b p' := by
  unfold Gives
  rw [outcome_bind]
  constructor
  · intro h
    rcases hx : x.outcome s p with ⟨e | a, q⟩
    · rw [hx] at h
      cases h
    · rw [hx] at h
      exact ⟨a, q, rfl, h⟩
  · rintro ⟨a, q, hx, hf⟩
    rw [hx]
    exact hf

/-- Where the first step is known to give a result, a plan is its second step. -/
theorem Gives.bind_iff {x : Planning α} {f : α → Planning β} {a : α} {q : Progress} (hx : x.Gives s p a q) {b : β} :
    (x >>= f).Gives s p b p' ↔ (f a).Gives s q b p' := by
  rw [gives_bind]
  constructor
  · rintro ⟨_, _, hx', hf⟩
    obtain ⟨rfl, rfl⟩ := hx.unique hx'
    exact hf
  · exact fun hf => ⟨a, q, hx, hf⟩

/-- A function of a result is given where the result is. -/
@[simp]
theorem gives_map {x : Planning α} {f : α → β} {b : β} :
    (f <$> x).Gives s p b p' ↔ ∃ a, x.Gives s p a p' ∧ b = f a := by
  rw [map_eq_pure_bind]
  simp only [gives_bind, gives_pure]
  constructor
  · rintro ⟨a, q, ha, rfl, rfl⟩
    exact ⟨a, ha, rfl⟩
  · rintro ⟨a, ha, rfl⟩
    exact ⟨a, p', ha, rfl, rfl⟩

/-- Stopping gives no result. -/
@[simp]
theorem not_gives_throw {e : Stop} {a : α} : ¬ (throw e : Planning α).Gives s p a p' := by
  intro h
  cases h

/-- An error gives no result. -/
@[simp]
theorem not_gives_fail {e : SqlError} {a : α} : ¬ (fail e : Planning α).Gives s p a p' :=
  not_gives_throw

/-- What is planned unless there is an error. -/
theorem gives_orFail {c : Prop} [Decidable c] {e : SqlError} {act : Planning α} {a : α} :
    (if c then (do fail e; act) else act).Gives s p a p' ↔ ¬c ∧ act.Gives s p a p' := by
  split
  · next h => simp [h]
  · next h => simp [h]

/-- A result or an error gives the result with the progress as it was. -/
@[simp]
theorem gives_ofExcept {x : Except SqlError α} {a : α} :
    (ofExcept x).Gives s p a p' ↔ x = .ok a ∧ p' = p := by
  cases x with
  | ok b => simp [ofExcept, eq_comm]
  | error e => simp [ofExcept]

/-- A result that may be a fault is given if it is none. -/
@[simp]
theorem gives_ofFault {x : Except Fault α} {a : α} :
    (ofFault x).Gives s p a p' ↔ x = .ok a ∧ p' = p := by
  cases x with
  | ok b => simp [ofFault, eq_comm]
  | error e => simp [ofFault]

/-! ## Scope and progress -/

/-- Reading the scope gives the scope. -/
@[simp]
theorem gives_read {t : Scope} : (read : Planning Scope).Gives s p t p' ↔ t = s ∧ p' = p := by
  constructor
  · intro h
    cases h
    exact ⟨rfl, rfl⟩
  · rintro ⟨rfl, rfl⟩
    rfl

/-- In another scope an action has its outcome there. -/
private theorem outcome_withReader {f : Scope → Scope} {act : Planning α} :
    (withReader f act).outcome s p = act.outcome (f s) p := rfl

/-- An action under another scope gives what it gives there. -/
@[simp]
theorem gives_withReader {f : Scope → Scope} {act : Planning α} {a : α} :
    (withReader f act).Gives s p a p' ↔ act.Gives (f s) p a p' := Iff.rfl

/-- Reading the progress gives the progress. -/
@[simp]
theorem gives_getProgress {q : Progress} :
    (getThe Progress : Planning Progress).Gives s p q p' ↔ q = p ∧ p' = p := by
  constructor
  · intro h
    cases h
    exact ⟨rfl, rfl⟩
  · rintro ⟨rfl, rfl⟩
    rfl

/-- Changing the progress leaves the changed progress. -/
@[simp]
theorem gives_modifyProgress {f : Progress → Progress} {u : Unit} :
    (modifyThe Progress f : Planning Unit).Gives s p u p' ↔ p' = f p := by
  constructor
  · intro h
    cases h
    rfl
  · rintro rfl
    rfl

/-- A parameter is what the scope binds it to. -/
@[simp]
theorem gives_lookup {name : String} {b : Binding} :
    (lookup name).Gives s p b p' ↔ s.binding? name = some b ∧ p' = p := by
  unfold lookup
  simp only [gives_bind, gives_read]
  constructor
  · rintro ⟨_, _, ⟨rfl, rfl⟩, h⟩
    split at h
    · next c hc =>
      obtain ⟨rfl, rfl⟩ := gives_pure.mp h
      exact ⟨hc, rfl⟩
    · exact absurd h not_gives_fail
  · rintro ⟨hb, rfl⟩
    exact ⟨s, p', ⟨rfl, rfl⟩, by rw [hb]; exact gives_pure.mpr ⟨rfl, rfl⟩⟩

/-- Under a lambda there are at most as many parameters as bindings, and they are bound by
position. -/
@[simp]
theorem gives_withFrame {params : List String} {bindings : List Binding} {act : Planning α}
    {a : α} :
    (withFrame params bindings act).Gives s p a p' ↔
      params.length ≤ bindings.length ∧
        act.Gives { s with frames := frame params bindings :: s.frames } p a p' := by
  unfold withFrame
  split
  · next extra he =>
    have hlt : bindings.length < params.length := (List.getElem?_eq_some_iff.mp he).1
    simp only [not_gives_fail, false_iff, not_and]
    omega
  · next he =>
    have hle := List.getElem?_eq_none_iff.mp he
    simp [hle]

/-- A subquery gives what it gives outside of a projection. -/
@[simp]
theorem gives_asSubquery {act : Planning α} {a : α} :
    (asSubquery act).Gives s p a p' ↔ act.Gives { s with inProjection := false } p a p' := Iff.rfl

/-! ## Aliases -/

/-- The next alias is the one at the position of the progress, which moves by one. -/
@[simp]
theorem gives_nextAlias {a : String} :
    nextAlias.Gives s p a p' ↔
      a = aliasAt s.compiler.options.firstAlias p.nextAlias ∧
        p' = { p with nextAlias := p.nextAlias + 1 } := by
  constructor
  · intro h
    cases h
    exact ⟨rfl, rfl⟩
  · rintro ⟨rfl, rfl⟩
    rfl

/-- The aliases are taken from the given position. -/
@[simp]
theorem gives_restartAliases {position : Nat} {u : Unit} :
    (restartAliases position).Gives s p u p' ↔ p' = { p with nextAlias := position } :=
  gives_modifyProgress

/-- What has aliases of its own leaves the next alias as it was. -/
@[simp]
theorem gives_withOwnAliases {act : Planning α} {a : α} :
    (withOwnAliases act).Gives s p a p' ↔
      ∃ q, act.Gives s { p with nextAlias := 0 } a q ∧
        p' = { q with nextAlias := p.nextAlias } := by
  unfold withOwnAliases
  simp only [gives_bind, gives_getProgress, gives_restartAliases, gives_pure]
  constructor
  · rintro ⟨_, _, ⟨rfl, rfl⟩, _, _, rfl, a', q, ha, _, _, rfl, rfl, rfl⟩
    exact ⟨q, ha, rfl⟩
  · rintro ⟨q, ha, rfl⟩
    exact ⟨p, p, ⟨rfl, rfl⟩, (), _, rfl, a, q, ha, (), _, rfl, rfl, rfl⟩

/-- A call that only can be evaluated after fetching gives no result. -/
@[simp]
theorem not_gives_defer {declaring method : String} {arity : Nat} {a : α} :
    ¬ (defer declaring method arity : Planning α).Gives s p a p' := by
  unfold defer
  simp only [gives_bind, gives_read]
  rintro ⟨_, _, ⟨rfl, rfl⟩, h⟩
  split at h
  · exact not_gives_throw h
  · exact not_gives_fail h

/-- What is planned after a stop goes on with the progress that the stop left. -/
theorem outcome_tryCatch (x : Planning α) (h : Stop → Planning α) :
    (tryCatchThe Stop x h : Planning α).outcome s p =
      match x.outcome s p with
      | (.ok a, q) => (.ok a, q)
      | (.error e, q) => (h e).outcome s q := by
  unfold outcome
  show (ExceptT.tryCatch (x s) fun e => h e s) p = _
  simp only [ExceptT.tryCatch, ExceptT.mk, bind, StateT.bind]
  rcases (x s p : Except Stop α × Progress) with ⟨_ | a, q⟩ <;> rfl

/-- A projected expression gives its node, or it is left for evaluation after fetching and its
aliases are free again.

**Proof sketch.** The expression runs with the projection's scope and ends with a node, which is handed on, or with a
stop. Of the stops just that for an evaluation after fetching is caught, and the counter of the aliases set back. -/
theorem gives_projected {act : Planning Node} {o : Option Node} :
    (projected act).Gives s p o p' ↔
      (∃ n, o = some n ∧ act.Gives { s with inProjection := true } p n p') ∨
        (o = none ∧ ∃ declaring method arity q,
          act.outcome { s with inProjection := true } p =
            (.error (.deferred declaring method arity), q) ∧
          p' = { q with nextAlias := p.nextAlias }) := by
  have run : (some <$> withReader (fun s => { s with inProjection := true }) act).outcome s p =
      match act.outcome { s with inProjection := true } p with
      | (.ok n, q) => (.ok (some n), q)
      | (.error e, q) => (.error e, q) := by
    rw [map_eq_pure_bind, outcome_bind]
    rw [outcome_withReader]
    rcases act.outcome { s with inProjection := true } p with ⟨_ | n, q⟩ <;> rfl
  unfold projected
  simp only [gives_bind, gives_getProgress]
  unfold Gives
  rcases hx : act.outcome { s with inProjection := true } p with ⟨e | n, q⟩ <;>
    rw [hx] at run
  · constructor
    · rintro ⟨_, _, ⟨rfl, rfl⟩, h⟩
      rw [outcome_tryCatch, run] at h
      cases e with
      | deferred declaring method arity =>
        cases h
        exact .inr ⟨rfl, declaring, method, arity, q, rfl, rfl⟩
      | error e => cases h
      | fault f => cases h
    · rintro (⟨_, _, h⟩ | ⟨rfl, declaring, method, arity, q', h, rfl⟩)
      · cases h
      · cases h
        refine ⟨p, p, ⟨rfl, rfl⟩, ?_⟩
        rw [outcome_tryCatch, run]
        rfl
  · constructor
    · rintro ⟨_, _, ⟨rfl, rfl⟩, h⟩
      rw [outcome_tryCatch, run] at h
      cases h
      exact .inl ⟨n, rfl, rfl⟩
    · rintro (⟨n', rfl, h⟩ | ⟨_, _, _, _, _, h, _⟩)
      · cases h
        refine ⟨p, p, ⟨rfl, rfl⟩, ?_⟩
        rw [outcome_tryCatch, run]
      · cases h

/-- A statement that is planned is planned without bindings and from the beginning. -/
theorem gives_of_run {c : Compiler} {act : Planning α} {a : α} {ctes : List CtePlan}
    (h : act.run c = .ok (a, ctes)) : ∃ p', act.Gives { compiler := c } {} a p' ∧ ctes = p'.ctes := by
  unfold Planning.run at h
  dsimp only [ReaderT.run, ExceptT.run, StateT.run] at h
  unfold Gives outcome
  generalize (act { compiler := c } {} : Except Stop α × Progress) = result at h ⊢
  obtain ⟨_ | b, q⟩ := result
  · cases h
  · cases h
    exact ⟨q, rfl, rfl⟩

/-- An action that faults from the start has the fault as its outcome. -/
theorem outcome_of_run_fault {c : Compiler} {act : Planning α} {f : Fault} (h : act.run c = .error (.fault f)) :
    (act.outcome { compiler := c } {}).1 = .error (.fault f) := by
  unfold Planning.run at h
  dsimp only [ReaderT.run, ExceptT.run, StateT.run] at h
  unfold outcome
  generalize (act { compiler := c } {} : Except Stop α × Progress) = result at h ⊢
  obtain ⟨_ | b, q⟩ := result
  · next stop =>
    cases stop with
    | fault g =>
      cases h
      rfl
    | error e => cases h
    | deferred declaring method arity => cases h
  · cases h

/-- An action that gives a result from the start runs to it. -/
theorem run_of_gives {c : Compiler} {act : Planning α} {a : α} {p' : Progress}
    (h : act.Gives { compiler := c } {} a p') : act.run c = .ok (a, p'.ctes) := by
  unfold Gives outcome at h
  unfold Planning.run
  dsimp only [ReaderT.run, ExceptT.run, StateT.run]
  generalize (act { compiler := c } {} : Except Stop α × Progress) = result at h ⊢
  obtain ⟨_ | b, q⟩ := result
  · cases h
  · cases h
    rfl

/-! ## Lists -/

/-- Nothing is given for no members. -/
@[simp]
theorem gives_mapM_nil {f : α → Planning β} {bs : List β} :
    (([] : List α).mapM f).Gives s p bs p' ↔ bs = [] ∧ p' = p := by
  rw [List.mapM_nil]
  exact gives_pure

/-- The results for members are that of the first and those of the others, in turn. -/
@[simp]
theorem gives_mapM_cons {f : α → Planning β} {a : α} {as : List α} {bs : List β} :
    ((a :: as).mapM f).Gives s p bs p' ↔
      ∃ b q rest, (f a).Gives s p b q ∧ (as.mapM f).Gives s q rest p' ∧ bs = b :: rest := by
  rw [List.mapM_cons]
  simp only [gives_bind, gives_pure]
  constructor
  · rintro ⟨b, q, hb, rest, q', hrest, rfl, rfl⟩
    exact ⟨b, q, rest, hb, hrest, rfl⟩
  · rintro ⟨b, q, rest, hb, hrest, rfl⟩
    exact ⟨b, q, hb, rest, p', hrest, rfl, rfl⟩

/-- Planning several things gives as many. -/
theorem length_of_gives_mapM {f : α → Planning β} {as : List α} {bs : List β} (h : (as.mapM f).Gives s p bs p') :
    bs.length = as.length := by
  induction as generalizing p bs with
  | nil =>
    obtain ⟨rfl, -⟩ := gives_mapM_nil.mp h
    rfl
  | cons a as ih =>
    obtain ⟨b, q, rest, -, hrest, rfl⟩ := gives_mapM_cons.mp h
    exact congrArg (· + 1) (ih hrest)

/-- Checks that change nothing, one after the other, change nothing. -/
theorem Gives.of_forM {f : α → Planning Unit}
    (hf : ∀ a q u q', (f a).Gives s q u q' → q' = q) {as : List α} {u : Unit}
    (h : (as.forM f).Gives s p u p') : p' = p := by
  induction as generalizing p with
  | nil => exact (gives_pure.mp h).2
  | cons a as ih =>
    obtain ⟨_, q, ha, h⟩ := gives_bind.mp (show (f a >>= fun _ => as.forM f).Gives s p u p' from h)
    rw [ih h, hf _ _ _ _ ha]

end LambdaSql.Planning

namespace LambdaSql.Lowering

open Planning

/-! ## Reading expressions -/

variable {s : Scope} {p p' : Progress} {e : Expr}

/-- Reading the dialect gives that of the compiler. -/
@[simp]
theorem gives_dialect {d : Dialect} : dialect.Gives s p d p' ↔ d = s.compiler.dialect ∧ p' = p := by
  simp [dialect, and_comm]

/-- Reading the translations gives those of the compiler. -/
@[simp]
theorem gives_translations {t : TranslationTable} :
    translations.Gives s p t p' ↔ t = s.compiler.translations ∧ p' = p := by
  simp [translations, and_assoc, and_comm]

/-- Asking for the origin of an expression gives its origin under the compiler's translations. -/
@[simp]
theorem gives_origin {o : Origin} :
    (origin e).Gives s p o p' ↔ o = e.origin s.compiler.translations ∧ p' = p := by
  simp [origin, and_assoc, and_comm]

/-- An expression may be folded by an option, or if it contains no call. -/
@[simp]
theorem gives_foldable {b : Bool} :
    (foldable e).Gives s p b p' ↔
      b = (s.compiler.options.foldCalls || !e.containsCall) ∧ p' = p := by
  simp [foldable, and_assoc, and_comm]

/-- Asking for the value of an expression gives what evaluating it gives. -/
@[simp]
theorem gives_valueOf? {o : Option Value} :
    (valueOf? e).Gives s p o p' ↔ (Host.value e).attempt = .ok o ∧ p' = p :=
  gives_ofFault

/-- A constant is planned as the dialect writes it. -/
@[simp]
theorem gives_constant {v : Value} {n : Node} :
    (constant v).Gives s p n p' ↔ Node.constant s.compiler.dialect v = .ok n ∧ p' = p := by
  simp [constant, and_assoc, and_comm]

end LambdaSql.Lowering
