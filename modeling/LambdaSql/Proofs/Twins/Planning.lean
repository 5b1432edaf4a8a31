import LambdaSql.Proofs.Plan.AtHand
import LambdaSql.Proofs.Twins.Nodes

/-!
# Two runs of planning

Planning can be followed through two runs at once. The runs begin with scopes and progresses that differ in
bound values only, and they end alike: with results that show the same, or both by leaving a projection for
evaluation after fetching, and with progresses that again differ in bound values only. Nothing is said if one of
them ends for good, with an error or a fault.

## Main definitions

* `Binding.blank`, `Scope.blank`, `Progress.blank` - what is in scope, and what was planned, without values.
* `Planning.Meets` - two ends that are alike.
* `Planning.Alike` - two plans that end alike.

## Main results

* `Planning.Alike.bind` - one step after another.
* `Planning.Alike.projected` - projected expressions.
* `Planning.Alike.withFrame`, `Planning.Alike.lookup` - extending and reading the scope.
-/

namespace LambdaSql

/-! ## Scopes and progresses without values -/

/-- Named nodes whose bound values are blanked. -/
def blankNamed (named : List (String × Node)) : List (String × Node) := named.map (Prod.map id Node.blank)

/-- The groups of a grouped query, with the bound values of the keys blanked. -/
def Grouping.blank (g : Grouping) : Grouping := { g with keys := blankNamed g.keys }

/-- What a lambda parameter stands for, with bound values blanked. -/
def Binding.blank : Binding → Binding
  | .table t => .table t
  | .grouping g => .grouping g.blank

/-- The single key of a grouping is blanked with the grouping. -/
theorem Grouping.singleKey_blank (g : Grouping) : Node.blank <$> g.singleKey = g.blank.singleKey := by
  obtain ⟨keys, elements⟩ := g
  match keys with
  | [] | [_] | _ :: _ :: _ => rfl

/-- Two bindings that differ in bound values only are one table, or groupings that do. -/
theorem Binding.cases_of_blank {b b' : Binding} (h : b.blank = b'.blank) :
    (∃ t, b = .table t ∧ b' = .table t) ∨
      ∃ g g', b = .grouping g ∧ b' = .grouping g' ∧ g.blank = g'.blank := by
  cases b <;> cases b' <;> simp only [blank, table.injEq, grouping.injEq, reduceCtorEq] at h
  · exact .inl ⟨_, rfl, congrArg table h.symm⟩
  · exact .inr ⟨_, _, rfl, rfl, h⟩

/-- What an expression may refer to, with bound values blanked. -/
def Scope.blank (s : Scope) : Scope := { s with frames := s.frames.map (List.map (Prod.map id Binding.blank)) }

/-- What was planned, with bound values blanked. -/
def Progress.blank (p : Progress) : Progress := { p with ctes := p.ctes.map CtePlan.blank }

/-- Scopes are alike where they differ in nothing but bound values. -/
theorem Scope.blank_eq_iff {s s' : Scope} : s.blank = s'.blank ↔ s.compiler = s'.compiler ∧
    s.frames.map (List.map (Prod.map id Binding.blank)) = s'.frames.map (List.map (Prod.map id Binding.blank)) ∧
      s.inProjection = s'.inProjection ∧ s.underway = s'.underway ∧ s.recursive = s'.recursive := by
  simp [blank]

/-- Progress is alike where it differs in nothing but bound values. -/
theorem Progress.blank_eq_iff {p p' : Progress} : p.blank = p'.blank ↔ p.nextAlias = p'.nextAlias ∧
    p.ctes.map CtePlan.blank = p'.ctes.map CtePlan.blank ∧ p.selfReads = p'.selfReads := by
  simp [blank]

/-- Whether a stop leaves a projection for evaluation after fetching. -/
def Stop.isDeferred : Stop → Bool
  | .deferred .. => true
  | _ => false

/-- Optional values with equal images are related. -/
theorem rel_of_map_eq {α β : Type} {f : α → β} {a? b? : Option α} (h : a?.map f = b?.map f) :
    Option.Rel (fun a b => f a = f b) a? b? := by
  cases a? <;> cases b? <;> first | cases h; done | skip
  · exact .none
  · exact .some (Option.some.inj h)

/-- What is found among mapped values is the mapped one. -/
private theorem lookup_map {α β : Type} (f : α → β) (as : List (String × α)) (name : String) :
    (as.map (Prod.map id f)).lookup name = (as.lookup name).map f := by
  induction as with
  | nil => rfl
  | cons a rest ih =>
    obtain ⟨key, a⟩ := a
    simp only [List.map_cons, Prod.map, id_eq, List.lookup_cons]
    split
    · rfl
    · exact ih

/-- The keys of a grouping are found blanked in the blanked one. -/
theorem Grouping.lookup_blank (g : Grouping) (name : String) :
    g.blank.keys.lookup name = (g.keys.lookup name).map Node.blank := lookup_map Node.blank g.keys name

/-- A key of a grouping is blanked with the grouping. -/
theorem Grouping.key_blank (g : Grouping) (name : String) : Node.blank <$> g.key name = g.blank.key name := by
  unfold key
  rw [lookup_blank]
  cases g.keys.lookup name <;> rfl

/-- The binding of a parameter in a blanked scope is the blanked one. -/
private theorem Scope.binding?_blank (s : Scope) (name : String) :
    s.blank.binding? name = (s.binding? name).map Binding.blank := by
  unfold binding? blank
  induction s.frames with
  | nil => rfl
  | cons frame rest ih =>
    simp only [List.map_cons, List.findSome?_cons, lookup_map]
    cases frame.lookup name with
    | none => exact ih
    | some b => rfl

/-- A parameter stands for the same in both scopes but for bound values. -/
theorem Scope.binding?_rel {s s' : Scope} (h : s.blank = s'.blank) (name : String) :
    Option.Rel (fun b b' : Binding => b.blank = b'.blank) (s.binding? name) (s'.binding? name) :=
  rel_of_map_eq (by rw [← binding?_blank, h, binding?_blank])

namespace Planning

variable {α β γ δ : Type} {c : Compiler} {f : α → γ} {g : β → δ}

/-- The frame of blanked bindings is the blanked frame. -/
private theorem frame_blank (params : List String) (bindings : List Binding) :
    frame params (bindings.map Binding.blank) = (frame params bindings).map (Prod.map id Binding.blank) := by
  simp [frame, List.zip_map_right]

/-! ## Two runs -/

/-- Two ends that are alike, if what matters of a result is what `f` shows of it. -/
inductive Meets (f : α → γ) : Except Stop α × Progress → Except Stop α × Progress → Prop
  | results {a a' : α} {q q' : Progress} (h : f a = f a') (hq : q.blank = q'.blank) :
    Meets f (.ok a, q) (.ok a', q')
  | deferred {e e' : Stop} {q q' : Progress} (he : e.isDeferred = true) (he' : e'.isDeferred = true)
    (hq : q.blank = q'.blank) : Meets f (.error e, q) (.error e', q')
  | left {e : Stop} {q : Progress} {r : Except Stop α × Progress} (he : e.isDeferred = false) :
    Meets f (.error e, q) r
  | right {e : Stop} {q : Progress} {r : Except Stop α × Progress} (he : e.isDeferred = false) :
    Meets f r (.error e, q)

/-- Two plans end alike wherever they begin with scopes of a compiler and with progresses that differ in bound
values only. -/
def Alike (c : Compiler) (f : α → γ) (x x' : Planning α) : Prop :=
  ∀ ⦃s s' p p'⦄, s.compiler = c → s.blank = s'.blank → p.blank = p'.blank →
    Meets f (x.outcome s p) (x'.outcome s' p')

namespace Alike

variable {x x' : Planning α}

/-! ## Steps -/

/-- Results that are alike are planned alike. -/
theorem pure {a a' : α} (h : f a = f a') : Alike c f (Pure.pure a) (Pure.pure a') :=
  fun _ _ _ _ _ _ hp => .results h hp

/-- An error in the first run is alike to whatever the second one does. -/
private theorem throw_left {e : Stop} (he : e.isDeferred = false) : Alike c f (throw e) x' :=
  fun _ _ _ _ _ _ _ => .left he

/-- An error in the second run is alike to whatever the first one does. -/
private theorem throw_right {e : Stop} (he : e.isDeferred = false) : Alike c f x (throw e) :=
  fun _ _ _ _ _ _ _ => .right he

/-- An error is alike to everything. -/
theorem fail {e : SqlError} : Alike c f (fail e) x' := throw_left rfl

/-- The second steps begin with results that show the same. -/
theorem bind {k k' : α → Planning β} (hx : Alike c f x x')
    (hk : ∀ a a', f a = f a' → Alike c g (k a) (k' a')) : Alike c g (x >>= k) (x' >>= k') := by
  intro s s' p p' hc hs hp
  have h := hx hc hs hp
  rw [outcome_bind, outcome_bind]
  generalize x.outcome s p = r at h
  generalize x'.outcome s' p' = r' at h
  cases h with
  | results h hq => exact hk _ _ h hc hs hq
  | deferred he he' hq => exact .deferred he he' hq
  | left he => exact .left he
  | right he => exact .right he

/-- What follows an error is alike to everything. -/
theorem fail_bind {e : SqlError} {k : α → Planning β} {y : Planning β} :
    Alike c g (Planning.fail e >>= k) y := by
  intro s s' p p' _ _ _
  rw [outcome_bind]
  exact .left rfl

/-- Results that show the same, put into another form. -/
theorem map {k k' : α → β} (hx : Alike c f x x') (hk : ∀ a a', f a = f a' → g (k a) = g (k' a')) :
    Alike c g (k <$> x) (k' <$> x') := by
  rw [map_eq_pure_bind, map_eq_pure_bind]
  exact hx.bind fun a a' h => pure (hk a a' h)

/-- Results and errors that are alike are planned alike. -/
theorem ofExcept {r r' : Except SqlError α} (h : f <$> r = f <$> r') :
    Alike c f (ofExcept r) (ofExcept r') := by
  cases r with
  | error e => exact fail
  | ok a =>
    cases r' with
    | error e => exact throw_right rfl
    | ok a' => exact pure (Except.ok.inj h)

/-- A fault ends a run for good. -/
theorem ofFault {r r' : Except Fault α} (h : ∀ a a', r = .ok a → r' = .ok a' → f a = f a') :
    Alike c f (ofFault r) (ofFault r') := by
  cases r with
  | error fault => exact throw_left rfl
  | ok a =>
    cases r' with
    | error fault => exact throw_right rfl
    | ok a' => exact pure (h a a' rfl rfl)

/-- What follows results without faults is planned alike if it is so for these. -/
theorem ofFault_bind {r r' : Except Fault α} {k k' : α → Planning β}
    (h : ∀ a a', r = .ok a → r' = .ok a' → Alike c g (k a) (k' a')) :
    Alike c g (Planning.ofFault r >>= k) (Planning.ofFault r' >>= k') := by
  intro s s' p p' hc hs hp
  rw [outcome_bind, outcome_bind]
  cases r with
  | error fault => exact .left rfl
  | ok a =>
    cases r' with
    | error fault => exact .right rfl
    | ok a' => exact h a a' rfl rfl hc hs hp

/-- What is planned unless there is an error, under one condition. -/
theorem orFail {t t' : Prop} [Decidable t] [Decidable t'] {e e' : SqlError} (ht : t ↔ t') (h : Alike c f x x') :
    Alike c f (do
      if t then Planning.fail e
      x) (do
      if t' then Planning.fail e'
      x') := by
  by_cases hcond : t
  · rw [if_pos hcond, if_pos (ht.mp hcond)]
    exact fail_bind
  · rw [if_neg hcond, if_neg fun h' => hcond (ht.mpr h')]
    exact h

/-! ## Scope and progress -/

/-- The second step sees the compiler of both scopes. -/
theorem read_bind {k k' : Scope → Planning β}
    (hk : ∀ s s', s.compiler = c → s'.compiler = c → s.blank = s'.blank → Alike c g (k s) (k' s')) :
    Alike c g (MonadReader.read >>= k) (MonadReader.read >>= k') := by
  intro s s' p p' hc hs hp
  have hc' : s'.compiler = c := (congrArg Scope.compiler hs).symm.trans hc
  exact hk s s' hc hc' hs hc hs hp

/-- Actions under changed scopes are alike if the change keeps scopes alike. -/
theorem withReader {u : Scope → Scope} (h : Alike c f x x') (hu : ∀ s, (u s).compiler = s.compiler)
    (hb : ∀ s s', s.blank = s'.blank → (u s).blank = (u s').blank) :
    Alike c f (withReader u x) (withReader u x') :=
  fun _ _ _ _ hc hs hp => h ((hu _).trans hc) (hb _ _ hs) hp

/-- The progress that is read is alike. -/
theorem getProgress : Alike c Progress.blank (getThe Progress : Planning Progress) (getThe Progress) :=
  fun _ _ _ _ _ _ hp => .results hp hp

/-- Changes that keep progress alike are alike. -/
theorem modifyProgress {u u' : Progress → Progress} {f : Unit → γ}
    (hu : ∀ p p', p.blank = p'.blank → (u p).blank = (u' p').blank) :
    Alike c f (modifyThe Progress u : Planning Unit) (modifyThe Progress u') :=
  fun _ _ _ _ _ _ hp => .results rfl (hu _ _ hp)

/-- What a parameter is bound to is alike. -/
theorem lookup {name : String} : Alike c Binding.blank (lookup name) (lookup name) := by
  unfold Planning.lookup
  refine read_bind fun s s' _ _ hs => ?_
  have hb := Scope.binding?_rel hs name
  generalize s.binding? name = b? at hb
  generalize s'.binding? name = b?' at hb
  cases hb with
  | none => exact fail
  | some hb => exact pure hb

/-- Actions under frames that are alike are alike. -/
theorem withFrame {params : List String} {bindings bindings' : List Binding} (h : Alike c f x x')
    (hb : bindings.map Binding.blank = bindings'.map Binding.blank) :
    Alike c f (withFrame params bindings x) (withFrame params bindings' x') := by
  have hlength : bindings.length = bindings'.length := by simpa using congrArg List.length hb
  unfold Planning.withFrame
  rw [hlength]
  split
  · exact fail
  · intro s s' p p' hc hs hp
    refine h hc ?_ hp
    have hframe : (frame params bindings).map (Prod.map id Binding.blank) =
        (frame params bindings').map (Prod.map id Binding.blank) := by
      rw [← frame_blank, ← frame_blank, hb]
    obtain ⟨hcompiler, hframes, hrest⟩ := Scope.blank_eq_iff.mp hs
    refine Scope.blank_eq_iff.mpr ⟨hcompiler, ?_, hrest⟩
    rw [List.map_cons, List.map_cons, hframe, hframes]

/-- Subqueries that are alike are so outside of a projection. -/
theorem asSubquery (h : Alike c f x x') : Alike c f (asSubquery x) (asSubquery x') := by
  refine h.withReader (fun _ => rfl) fun s s' hs => ?_
  obtain ⟨hcompiler, hframes, -, hrest⟩ := Scope.blank_eq_iff.mp hs
  exact Scope.blank_eq_iff.mpr ⟨hcompiler, hframes, rfl, hrest⟩

/-- Both are left for evaluation after fetching, or none is. -/
theorem defer {declaring declaring' method method' : String} {arity arity' : Nat} :
    Alike c f (defer declaring method arity) (defer declaring' method' arity') := by
  unfold Planning.defer
  refine read_bind fun s s' _ _ hs => ?_
  rw [(Scope.blank_eq_iff.mp hs).2.2.1]
  split
  · exact fun _ _ _ _ _ _ hp => .deferred rfl rfl hp
  · exact fail

/-! ## Aliases -/

/-- Taking the aliases from one position is alike. -/
theorem restartAliases {position : Nat} {f : Unit → γ} :
    Alike c f (restartAliases position) (restartAliases position) := by
  exact modifyProgress fun p p' hp => Progress.blank_eq_iff.mpr ⟨rfl, (Progress.blank_eq_iff.mp hp).2⟩

/-- The next alias is the same. -/
theorem nextAlias : Alike c id nextAlias nextAlias := by
  unfold Planning.nextAlias
  refine getProgress.bind fun p p' hp => ?_
  have hnext := (Progress.blank_eq_iff.mp hp).1
  refine Alike.bind (f := id) (modifyProgress fun q q' hq => ?_) fun _ _ _ => ?_
  · exact Progress.blank_eq_iff.mpr ⟨by rw [hnext], (Progress.blank_eq_iff.mp hq).2⟩
  · refine read_bind fun s s' hs hs' _ => pure ?_
    rw [hs, hs', hnext]

/-- Actions that are alike are so with aliases of their own. -/
theorem withOwnAliases (h : Alike c f x x') : Alike c f (withOwnAliases x) (withOwnAliases x') := by
  unfold Planning.withOwnAliases
  refine getProgress.bind fun p p' hp => ?_
  dsimp only
  rw [(Progress.blank_eq_iff.mp hp).1]
  refine Alike.bind (f := id) restartAliases fun _ _ _ => h.bind fun a a' ha => ?_
  exact Alike.bind (f := id) restartAliases fun _ _ _ => pure ha

/-- What is planned after a stop that leaves a projection begins with the progress that the stop left. -/
theorem tryCatch {h h' : Stop → Planning α} (hx : Alike c f x x')
    (hd : ∀ e e', e.isDeferred = true → e'.isDeferred = true → Alike c f (h e) (h' e'))
    (he : ∀ e, e.isDeferred = false → h e = throw e) (he' : ∀ e, e.isDeferred = false → h' e = throw e) :
    Alike c f (tryCatchThe Stop x h) (tryCatchThe Stop x' h') := by
  intro s s' p p' hc hs hp
  have hends := hx hc hs hp
  rw [outcome_tryCatch, outcome_tryCatch]
  generalize x.outcome s p = r at hends
  generalize x'.outcome s' p' = r' at hends
  cases hends with
  | results h hq => exact .results h hq
  | deferred hstop hstop' hq => exact hd _ _ hstop hstop' hc hs hq
  | left hstop =>
    dsimp only
    rw [he _ hstop]
    exact .left hstop
  | right hstop =>
    dsimp only
    rw [he' _ hstop]
    exact .right hstop

/-- A projected expression: in both runs its node, or in both it is left for evaluation after fetching. -/
theorem projected {x x' : Planning Node} (h : Alike c Node.blank x x') :
    Alike c (Option.map Node.blank) (projected x) (projected x') := by
  unfold Planning.projected
  refine getProgress.bind fun p p' hp => ?_
  dsimp only
  rw [(Progress.blank_eq_iff.mp hp).1]
  refine tryCatch ?_ (fun e e' he he' => ?_) (fun e he => ?_) fun e he => ?_
  · refine Alike.map (h.withReader (fun _ => rfl) fun s s' hs => ?_) fun n n' hn => congrArg some hn
    obtain ⟨hcompiler, hframes, -, hrest⟩ := Scope.blank_eq_iff.mp hs
    exact Scope.blank_eq_iff.mpr ⟨hcompiler, hframes, rfl, hrest⟩
  · cases e <;> cases he
    cases e' <;> cases he'
    exact Alike.bind (f := id) restartAliases fun _ _ _ => pure rfl
  · cases e <;> first | rfl | cases he
  · cases e <;> first | rfl | cases he

/-! ## Lists -/

/-- One action for each member is alike if each of them is. -/
theorem mapM {k k' : δ → Planning α} {as as' : List δ}
    (h : List.Forall₂ (fun a a' => Alike c f (k a) (k' a')) as as') :
    Alike c (List.map f) (as.mapM k) (as'.mapM k') := by
  induction h with
  | nil => exact pure rfl
  | cons h _ ih =>
    rw [List.mapM_cons, List.mapM_cons]
    refine h.bind fun b b' hb => ih.bind fun bs bs' hbs => pure ?_
    rw [List.map_cons, List.map_cons, hb, hbs]

/-- One action for each member is alike if each of them is, without results. -/
theorem forM {k k' : δ → Planning Unit} {as as' : List δ} {f : Unit → γ}
    (h : List.Forall₂ (fun a a' => Alike c f (k a) (k' a')) as as') :
    Alike c f (as.forM k) (as'.forM k') := by
  induction h with
  | nil => exact pure rfl
  | cons h _ ih => exact h.bind fun _ _ _ => ih

end Alike

end Planning

end LambdaSql
