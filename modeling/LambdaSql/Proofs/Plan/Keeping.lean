import LambdaSql.Proofs.Plan.Outcome

/-!
# What planning keeps

A stop does not take progress back, so what is said about the progress of planning has to be said about
runs that stop as well. Planning keeps a property of the progress if it has it in the end whenever it had it
in the beginning, however it ends; at the same time its results, and the faults it comes upon, have properties
of their own. All of this is told step by step, along the way in which planning is put together.

## Main definitions

* `Planning.Keeps` - planning that keeps a property of the progress and ends in results and faults with properties.

## Main results

* `Planning.Keeps.bind` - one step after another.
* `Planning.Keeps.tryCatch` - going on after a stop.
* `Planning.Keeps.projected` - a projected expression.
-/

namespace LambdaSql.Planning

variable {α β : Type} {S : Scope → Prop} {I : Progress → Prop} {E : Fault → Prop}

/-- Under scopes that have `S`, planning that begins with a progress that has `I` ends with one that has
it, also when it stops. A result of it has `Q`, and a fault that it comes upon has `E`. -/
structure Keeps (S : Scope → Prop) (I : Progress → Prop) (E : Fault → Prop) (act : Planning α) (Q : α → Prop) :
    Prop where
  progress : ∀ {s p}, S s → I p → I (act.outcome s p).2
  result : ∀ {s p a}, S s → I p → (act.outcome s p).1 = .ok a → Q a
  fault : ∀ {s p f}, S s → I p → (act.outcome s p).1 = .error (.fault f) → E f

namespace Keeps

variable {act x : Planning α} {Q R : α → Prop}

/-- What is said of the result may be weakened. -/
theorem mono (h : Keeps S I E act Q) (hQ : ∀ a, Q a → R a) : Keeps S I E act R :=
  ⟨h.progress, fun hs hp ha => hQ _ (h.result hs hp ha), h.fault⟩

/-- What holds under some scopes holds under fewer. -/
theorem within {S' : Scope → Prop} (h : Keeps S I E act Q) (hS : ∀ s, S' s → S s) : Keeps S' I E act Q :=
  ⟨fun hs => h.progress (hS _ hs), fun hs => h.result (hS _ hs), fun hs => h.fault (hS _ hs)⟩

/-- Results of a run that ends with one. -/
theorem of_gives (h : Keeps S I E act Q) {s : Scope} {p p' : Progress} {a : α} (hs : S s) (hp : I p)
    (ha : act.Gives s p a p') : Q a ∧ I p' := by
  unfold Gives at ha
  have hprogress := h.progress hs hp
  have hresult := h.result hs hp (a := a)
  rw [ha] at hprogress hresult
  exact ⟨hresult rfl, hprogress⟩

/-! ## Steps -/

/-- A result keeps the progress. -/
theorem pure {a : α} (h : Q a) : Keeps S I E (Pure.pure a) Q := by
  refine ⟨fun _ hp => hp, fun _ _ ha => ?_, nofun⟩
  cases ha
  exact h

/-- Stopping keeps the progress. -/
theorem throw {e : Stop} (h : ∀ f, e = .fault f → E f) : Keeps S I E (throw e : Planning α) Q := by
  refine ⟨fun _ hp => hp, nofun, fun _ _ hf => ?_⟩
  cases hf
  exact h _ rfl

/-- An error keeps the progress. -/
theorem fail {e : SqlError} : Keeps S I E (fail e : Planning α) Q := throw nofun

/-- The second step begins with the progress of the first.

**Proof sketch.** The second step is reached with what the first one left, and only if that succeeded; progress,
result and faults are those of the step in which planning ended. -/
theorem bind {f : α → Planning β} {Q : β → Prop} (hx : Keeps S I E x R)
    (hf : ∀ a, R a → Keeps S I E (f a) Q) : Keeps S I E (x >>= f) Q := by
  constructor
  · intro s p hs hp
    have hprogress := hx.progress hs hp
    have hresult {a : α} := hx.result hs hp (a := a)
    rw [outcome_bind]
    split
    · next a q heq =>
      rw [heq] at hprogress hresult
      exact (hf a (hresult rfl)).progress hs hprogress
    · next e q heq =>
      rwa [heq] at hprogress
  · intro s p b hs hp hb
    have hprogress := hx.progress hs hp
    have hresult {a : α} := hx.result hs hp (a := a)
    rw [outcome_bind] at hb
    split at hb
    · next a q heq =>
      rw [heq] at hprogress hresult
      exact (hf a (hresult rfl)).result hs hprogress hb
    · cases hb
  · intro s p g hs hp hg
    have hprogress := hx.progress hs hp
    have hresult {a : α} := hx.result hs hp (a := a)
    have hfault {g : Fault} := hx.fault hs hp (f := g)
    rw [outcome_bind] at hg
    split at hg
    · next a q heq =>
      rw [heq] at hprogress hresult
      exact (hf a (hresult rfl)).fault hs hprogress hg
    · next e q heq =>
      rw [heq] at hfault
      cases hg
      exact hfault rfl

/-- A function of a result keeps what the action keeps. -/
theorem map {f : α → β} {Q : β → Prop} (hx : Keeps S I E x R) (hf : ∀ a, R a → Q (f a)) :
    Keeps S I E (f <$> x) Q := by
  rw [map_eq_pure_bind]
  exact hx.bind fun a ha => pure (hf a ha)

/-- A result or an error keeps the progress. -/
theorem ofExcept {r : Except SqlError α} (h : ∀ a, r = .ok a → Q a) : Keeps S I E (ofExcept r) Q := by
  cases r with
  | ok a => exact pure (h a rfl)
  | error e => exact fail

/-- A result or an allowed fault keeps the progress. -/
theorem ofFault {r : Except Fault α} (h : ∀ a, r = .ok a → Q a) (hE : ∀ f, r = .error f → E f) :
    Keeps S I E (ofFault r) Q := by
  cases r with
  | ok a => exact pure (h a rfl)
  | error f =>
    refine throw fun g hg => ?_
    cases hg
    exact hE f rfl

/-- What is planned unless there is an error. -/
theorem orFail {c : Prop} [Decidable c] {e : SqlError} (h : Keeps S I E act Q) :
    Keeps S I E (do
      if c then Planning.fail e
      act) Q := by
  dsimp only
  split
  · exact fail.bind (R := fun _ => True) fun _ _ => h
  · exact h

/-- What is planned after one of two first steps. -/
theorem either {c : Prop} [Decidable c] {y : Planning α} {f : α → Planning β} {Q : β → Prop} (hx : Keeps S I E x R)
    (hy : Keeps S I E y R) (hf : ∀ a, R a → Keeps S I E (f a) Q) :
    Keeps S I E (if c then x >>= f else y >>= f) Q := by
  split
  · exact hx.bind hf
  · exact hy.bind hf

/-! ## Scope and progress -/

/-- Reading the scope gives a scope that is allowed. -/
theorem read : Keeps S I E (read : Planning Scope) S := by
  refine ⟨fun _ hp => hp, fun hs _ ha => ?_, nofun⟩
  cases ha
  exact hs

/-- An action under another scope keeps what it keeps there. -/
theorem withReader {f : Scope → Scope} (h : Keeps S I E act Q) (hf : ∀ s, S s → S (f s)) :
    Keeps S I E (withReader f act) Q :=
  ⟨fun hs hp => h.progress (hf _ hs) hp, fun hs hp ha => h.result (hf _ hs) hp ha,
    fun hs hp hg => h.fault (hf _ hs) hp hg⟩

/-- The progress that is read is the one that is kept. -/
theorem getProgress : Keeps S I E (getThe Progress : Planning Progress) I := by
  refine ⟨fun _ hp => hp, fun _ hp ha => ?_, nofun⟩
  cases ha
  exact hp

/-- A change of the progress that keeps it is allowed. -/
theorem modifyProgress {f : Progress → Progress} {Q : Unit → Prop} (hf : ∀ p, I p → I (f p)) (hQ : Q ()) :
    Keeps S I E (modifyThe Progress f : Planning Unit) Q := by
  refine ⟨fun _ hp => hf _ hp, fun _ _ ha => ?_, nofun⟩
  cases ha
  exact hQ

/-- What is planned after a stop begins with the progress that the stop left.

**Proof sketch.** The other plan is reached with what the stop left. A fault is not caught as a rule, but it would be
one that is allowed. -/
theorem tryCatch {h : Stop → Planning α} (hx : Keeps S I E x Q)
    (hh : ∀ e, (∀ f, e = .fault f → E f) → Keeps S I E (h e) Q) : Keeps S I E (tryCatchThe Stop x h) Q := by
  constructor
  · intro s p hs hp
    have hprogress := hx.progress hs hp
    have hfault {g : Fault} := hx.fault hs hp (f := g)
    rw [outcome_tryCatch]
    split
    · next a q heq => rwa [heq] at hprogress
    · next e q heq =>
      rw [heq] at hprogress hfault
      exact (hh e fun g hg => hfault (congrArg _ hg)).progress hs hprogress
  · intro s p b hs hp hb
    have hprogress := hx.progress hs hp
    have hresult := hx.result hs hp (a := b)
    have hfault {g : Fault} := hx.fault hs hp (f := g)
    rw [outcome_tryCatch] at hb
    split at hb
    · next a q heq =>
      rw [heq] at hresult
      exact hresult hb
    · next e q heq =>
      rw [heq] at hprogress hfault
      exact (hh e fun g hg => hfault (congrArg _ hg)).result hs hprogress hb
  · intro s p g hs hp hg
    have hprogress := hx.progress hs hp
    have hfault {g : Fault} := hx.fault hs hp (f := g)
    rw [outcome_tryCatch] at hg
    split at hg
    · cases hg
    · next e q heq =>
      rw [heq] at hprogress hfault
      exact (hh e fun g hg => hfault (congrArg _ hg)).fault hs hprogress hg

/-- What is asked for without changing anything. -/
theorem asked {f : Scope → α} (h : ∀ s, S s → Q (f s)) :
    Keeps S I E (do return f (← (MonadReader.read : Planning Scope))) Q := read.bind fun s hs => pure (h s hs)

/-- Looking up a parameter gives what it is bound to. -/
theorem lookup {name : String} {Q : Binding → Prop} (h : ∀ s b, S s → s.binding? name = some b → Q b) :
    Keeps S I E (lookup name) Q := by
  unfold Planning.lookup
  refine read.bind fun s hs => ?_
  split
  · next b hb => exact pure (h s b hs hb)
  · exact fail

/-- An action under a frame keeps what it keeps with the frame in scope. -/
theorem withFrame {params : List String} {bindings : List Binding} (h : Keeps S I E act Q)
    (hf : ∀ s, S s → S { s with frames := frame params bindings :: s.frames }) :
    Keeps S I E (withFrame params bindings act) Q := by
  unfold Planning.withFrame
  split
  · exact fail
  · exact h.withReader hf

/-- A subquery keeps what it keeps outside of a projection. -/
theorem asSubquery (h : Keeps S I E act Q) (hf : ∀ s, S s → S { s with inProjection := false }) :
    Keeps S I E (asSubquery act) Q := h.withReader hf

/-- A deferral keeps the progress. -/
theorem defer {declaring method : String} {arity : Nat} : Keeps S I E (defer declaring method arity) Q := by
  unfold Planning.defer
  refine read.bind fun s _ => ?_
  split
  · exact throw nofun
  · exact fail

/-! ## Aliases -/

section Aliases

variable (hI : ∀ p n, I p → I { p with nextAlias := n })

include hI

/-- Taking an alias keeps the progress. -/
theorem nextAlias : Keeps S I E nextAlias fun _ => True := by
  unfold Planning.nextAlias
  refine getProgress.bind fun p _ => ?_
  refine (modifyProgress (Q := fun _ => True) (fun q hq => hI q _ hq) trivial).bind fun _ _ => ?_
  exact read.bind fun s _ => pure trivial

/-- Taking the aliases from another position keeps the progress. -/
theorem restartAliases {position : Nat} : Keeps S I E (restartAliases position) fun _ => True :=
  modifyProgress (fun p hp => hI p _ hp) trivial

/-- An action keeps with aliases of its own what it keeps. -/
theorem withOwnAliases (h : Keeps S I E act Q) : Keeps S I E (withOwnAliases act) Q := by
  unfold Planning.withOwnAliases
  refine getProgress.bind fun p _ => ?_
  refine (restartAliases hI).bind fun _ _ => ?_
  refine h.bind fun a ha => ?_
  exact (restartAliases hI).bind fun _ _ => pure ha

/-- A projected expression: its node, or nothing when it is left for evaluation after fetching. -/
theorem projected {act : Planning Node} {Q : Node → Prop} (h : Keeps S I E act Q)
    (hS : ∀ s, S s → S { s with inProjection := true }) :
    Keeps S I E (projected act) fun n? => ∀ n, n? = some n → Q n := by
  unfold Planning.projected
  refine getProgress.bind fun p _ => ?_
  refine tryCatch ?_ fun stop hstop => ?_
  · refine (h.withReader hS).map fun n hn m hm => ?_
    cases hm
    exact hn
  · cases stop with
    | error e => exact throw nofun
    | fault f => exact throw hstop
    | deferred declaring method arity => exact (restartAliases hI).bind fun _ _ => pure nofun

end Aliases

/-! ## Lists -/

/-- One action for each member keeps what each of them keeps. -/
theorem mapM {f : α → Planning β} {Q : β → Prop} {as : List α} (h : ∀ a ∈ as, Keeps S I E (f a) Q) :
    Keeps S I E (as.mapM f) fun bs => ∀ b ∈ bs, Q b := by
  induction as with
  | nil =>
    rw [List.mapM_nil]
    exact pure nofun
  | cons a rest ih =>
    rw [List.mapM_cons]
    refine (h a List.mem_cons_self).bind fun b hb => ?_
    refine (ih fun a ha => h a (List.mem_cons_of_mem _ ha)).bind fun bs hbs => ?_
    refine pure fun c hc => ?_
    obtain rfl | hc := List.mem_cons.mp hc
    · exact hb
    · exact hbs c hc

/-- Each of several checks leaves something true of what is checked. -/
theorem forM {f : α → Planning Unit} {as : List α} {Q : α → Prop}
    (h : ∀ a ∈ as, Keeps S I E (f a) fun _ => Q a) : Keeps S I E (as.forM f) fun _ => ∀ a ∈ as, Q a := by
  induction as with
  | nil => exact pure nofun
  | cons a rest ih =>
    refine (h a List.mem_cons_self).bind fun _ ha => ?_
    exact (ih fun a ha => h a (List.mem_cons_of_mem _ ha)).mono fun _ hrest => List.forall_mem_cons.mpr ⟨ha, hrest⟩

end Keeps

end LambdaSql.Planning

namespace LambdaSql.Lowering

open Planning

/-! ## Reading expressions -/

variable {S : Scope → Prop} {I : Progress → Prop} {E : Fault → Prop} {e : Expr}

/-- Reading the dialect keeps the progress. -/
theorem keeps_dialect : Keeps S I E dialect fun _ => True := .asked fun _ _ => trivial

/-- Reading the translations keeps the progress. -/
theorem keeps_translations : Keeps S I E translations fun _ => True := .asked fun _ _ => trivial

/-- Asking for the origin of an expression gives its origin under some translations. -/
theorem keeps_origin : Keeps S I E (origin e) fun o => ∃ t, o = e.origin t :=
  keeps_translations.bind fun t _ => .pure ⟨t, rfl⟩

/-- Asking whether an expression may be folded keeps the progress. -/
theorem keeps_foldable : Keeps S I E (foldable e) fun _ => True := .asked fun _ _ => trivial

/-- The faults of an evaluation have a property. -/
abbrev FaultsHave (E : Fault → Prop) (e : Expr) : Prop := ∀ f, Host.value e = .error (.fault f) → E f

/-- Asking for the value of an expression keeps the progress. -/
theorem keeps_valueOf? (he : FaultsHave E e) : Keeps S I E (valueOf? e) fun _ => True := by
  refine .ofFault (fun _ _ => trivial) fun f hf => he f ?_
  rcases hv : Host.value e with (_ | g) | v
  all_goals
    rw [hv] at hf
    cases hf
  rfl

/-- Asking for the value of a constant keeps the progress. -/
theorem keeps_constantValue? (he : FaultsHave E e) : Keeps S I E (constantValue? e) fun _ => True := by
  unfold constantValue?
  refine keeps_origin.bind fun o _ => ?_
  split
  · refine keeps_foldable.bind fun b _ => ?_
    split
    · exact keeps_valueOf? he
    · exact .pure trivial
  · exact .pure trivial

/-- Asking for a format at hand keeps the progress. -/
theorem keeps_formatAtHand? (he : FaultsHave E e) : Keeps S I E (formatAtHand? e) fun _ => True := by
  unfold formatAtHand?
  refine keeps_origin.bind fun o _ => ?_
  split
  · exact .pure trivial
  · exact (keeps_valueOf? he).bind fun _ _ => .pure trivial

/-- Asking whether an expression is a collection keeps the progress. -/
theorem keeps_isCollection (he : FaultsHave E e.withoutConversions) :
    Keeps S I E (isCollection e) fun _ => True := by
  induction e using isCollection.induct with
  | case1 | case2 | case3 | case4 => exact .pure trivial
  | case5 e t ih => exact ih he
  | case6 e _ _ _ _ hconvert =>
    simp only [isCollection]
    refine keeps_origin.bind fun o _ => ?_
    split
    · exact .pure trivial
    · rw [Expr.withoutConversions] at he
      · exact (keeps_valueOf? he).bind fun _ _ => .pure trivial
      · exact hconvert

end LambdaSql.Lowering
