import LambdaSql.Proofs.Binding.Parameters
import LambdaSql.Proofs.Plan.Result
import LambdaSql.Statement.Fetched

/-!
# What evaluation reads

An expression is evaluated on values for members of lambda parameters. It looks at no others than those that it
reads, so values that agree on these give the same result. They are collected on the way through the expression,
each once, at the place where the way first comes to it. An expression left for evaluation after fetching has
a column for each of them, and the values are found in the fetched row by the names of these columns.

## Main definitions

* `Bindings.AgreeOn` - values that are the same for some members.
* `Expr.subterms` - the expressions within an expression, from left to right.
* `Expr.occurrences` - the members of parameters that occur in an expression, from left to right.
* `Row.Shows` - a row has the right value under the name of each column that an expression reads.
* `Deferred.outcome` - the outcome of an evaluation as one of a projection.

## Main results

* `Host.evaluate_congr` - evaluation depends on what is read only.
* `Expr.reads_eq` - what is read are the occurrences, without repetitions.
* `Expr.reads_suffice` - what is read comes in the order of its first occurrences, and evaluation depends on nothing
  else.
* `Deferred.evaluate_eq` - on a row that shows what is read, a projection is evaluated as its expression is.
-/

namespace LambdaSql

/-- Values are the same for some members of parameters. -/
def Bindings.AgreeOn (b b' : Bindings) (reads : List (String × String)) : Prop :=
  ∀ read ∈ reads, b read.1 read.2 = b' read.1 read.2

namespace Expr

/-! ## Reading -/

/-- A member of no parameter reads what its target reads. -/
private theorem readsAfter_member {target : Expr} (h : ∀ p, target ≠ param p) (seen : List (String × String))
    (name : String) : readsAfter seen (member target name) = readsAfter seen target := by
  cases target with
  | param p => exact absurd rfl (h p)
  | _ => rfl

mutual

/-- What is read stays read. -/
theorem subset_readsAfter : ∀ (e : Expr) (seen : List (String × String)), seen ⊆ readsAfter seen e
  | .member target name, seen => by
    by_cases h : ∃ p, target = param p
    · obtain ⟨p, rfl⟩ := h
      rw [readsAfter]
      split
      · exact List.Subset.refl seen
      · exact List.subset_append_left seen _
    · rw [readsAfter_member (fun p hp => h ⟨p, hp⟩)]
      exact subset_readsAfter target seen
  | .call (some target) _ _ args, seen =>
    List.Subset.trans (subset_readsAfter target seen) (subset_itemsReadAfter args _)
  | .call none _ _ args, seen => subset_itemsReadAfter args seen
  | .binary _ left right, seen => List.Subset.trans (subset_readsAfter left seen) (subset_readsAfter right _)
  | .unary _ operand, seen | .convert operand _, seen => subset_readsAfter operand seen
  | .conditional test a b, seen =>
    List.Subset.trans (List.Subset.trans (subset_readsAfter test seen) (subset_readsAfter a _)) (subset_readsAfter b _)
  | .object members, seen => subset_membersReadAfter members seen
  | .array items, seen => subset_itemsReadAfter items seen
  | .lambda _ body, seen => subset_readsAfter body seen
  | .param _, seen | .static .., seen | .constant _, seen | .captured .., seen | .query _, seen =>
    List.Subset.refl seen

/-- Items keep what has been read before. -/
private theorem subset_itemsReadAfter : ∀ (es : List Expr) (seen : List (String × String)),
    seen ⊆ itemsReadAfter seen es
  | [], seen => List.Subset.refl seen
  | e :: rest, seen => List.Subset.trans (subset_readsAfter e seen) (subset_itemsReadAfter rest _)

/-- Members keep what has been read before. -/
private theorem subset_membersReadAfter : ∀ (ms : List (String × Expr)) (seen : List (String × String)),
    seen ⊆ membersReadAfter seen ms
  | [], seen => List.Subset.refl seen
  | (_, e) :: rest, seen => List.Subset.trans (subset_readsAfter e seen) (subset_membersReadAfter rest _)

end

end Expr

namespace Host

open LambdaSql.Expr

variable {b b' : Bindings} {seen : List (String × String)}

/-! ## Evaluating -/

/-- A member of anything but a parameter is one of a value. -/
theorem evaluate_member {target : Expr} (h : ∀ p, target ≠ param p) (b : Bindings) (name : String) :
    evaluate b (.member target name) =
      evaluate b target >>= fun v => Evaluation.ofOption (Host.member v name) := by
  cases target with
  | param p => exact absurd rfl (h p)
  | _ => rfl

mutual

/-- **Evaluation depends on what is read only**, by induction on the expression; what was read before does not
matter.

**Proof sketch.** A member of a parameter is either read here, or was read before; all other expressions evaluate only
their parts, whose reads are among those of the whole. -/
theorem evaluate_congrAfter : ∀ (e : Expr) {seen : List (String × String)}, b.AgreeOn b' (readsAfter seen e) →
    evaluate b e = evaluate b' e
  | .member target name, seen, h => by
    by_cases hp : ∃ p, target = param p
    · obtain ⟨p, rfl⟩ := hp
      have hmem : (p, name) ∈ readsAfter seen (.member (.param p) name) := by
        rw [readsAfter]
        split
        · next hseen => simpa using hseen
        · simp
      rw [evaluate, evaluate, h _ hmem]
    · have hne := fun p hp' => hp ⟨p, hp'⟩
      rw [readsAfter_member hne] at h
      rw [evaluate_member hne, evaluate_member hne, evaluate_congrAfter target h]
  | .call (some target) _ _ args, seen, h => by
    rw [evaluate, evaluate, evaluateItems_congrAfter args h,
      evaluate_congrAfter target fun r hr => h r (subset_itemsReadAfter args _ hr)]
  | .call none (some _) _ args, seen, h | .call none none _ args, seen, h => by
    rw [evaluate, evaluate, evaluateItems_congrAfter args h]
  | .binary op left right, seen, h => by
    have hl := evaluate_congrAfter left fun r hr => h r (subset_readsAfter right _ hr)
    have hr := evaluate_congrAfter right h
    cases op <;> simp only [evaluate, hl, hr]
  | .unary _ operand, seen, h | .convert operand _, seen, h => by
    rw [evaluate, evaluate, evaluate_congrAfter operand h]
  | .conditional test ifTrue ifFalse, seen, h => by
    have ha := subset_readsAfter ifFalse (readsAfter (readsAfter seen test) ifTrue)
    have ht := List.Subset.trans (subset_readsAfter ifTrue (readsAfter seen test)) ha
    rw [evaluate, evaluate, evaluate_congrAfter test fun r hr => h r (ht hr),
      evaluate_congrAfter ifTrue fun r hr => h r (ha hr), evaluate_congrAfter ifFalse h]
  | .object members, seen, h => by rw [evaluate, evaluate, evaluateMembers_congrAfter members h]
  | .array items, seen, h => by rw [evaluate, evaluate, evaluateItems_congrAfter items h]
  | .lambda .., _, _ | .param _, _, _ | .static .., _, _ | .constant _, _, _ | .captured .., _, _
  | .query _, _, _ => rfl

/-- The values of items depend on what they read only. -/
private theorem evaluateItems_congrAfter : ∀ (es : List Expr) {seen : List (String × String)},
    b.AgreeOn b' (itemsReadAfter seen es) → evaluateItems b es = evaluateItems b' es
  | [], _, _ => rfl
  | e :: rest, seen, h => by
    rw [evaluateItems, evaluateItems, evaluateItems_congrAfter rest h,
      evaluate_congrAfter e fun r hr => h r (subset_itemsReadAfter rest _ hr)]

/-- The values of members depend on what they read only. -/
private theorem evaluateMembers_congrAfter : ∀ (ms : List (String × Expr)) {seen : List (String × String)},
    b.AgreeOn b' (membersReadAfter seen ms) → evaluateMembers b ms = evaluateMembers b' ms
  | [], _, _ => rfl
  | (_, e) :: rest, seen, h => by
    rw [evaluateMembers, evaluateMembers, evaluateMembers_congrAfter rest h,
      evaluate_congrAfter e fun r hr => h r (subset_membersReadAfter rest _ hr)]

end

/-- **Evaluation depends on what is read only.** -/
theorem evaluate_congr {e : Expr} (h : b.AgreeOn b' e.reads) : evaluate b e = evaluate b' e :=
  evaluate_congrAfter e h

end Host

/-! ## The order of what is read -/

/-- Items that are noted unless they have been before are those of a list without its repetitions. -/
theorem foldl_note_eq_eraseDups {α : Type} [BEq α] [LawfulBEq α] (as : List α) :
    as.foldl (fun seen a => if seen.contains a then seen else seen ++ [a]) [] = as.eraseDups := by
  induction as using List.reverseRecOn with
  | nil => rfl
  | append_singleton as a ih =>
    rw [List.foldl_append, ih, List.foldl_cons, List.foldl_nil]
    by_cases h : a ∈ as
    · rw [eraseDups_append_of_mem h, if_pos (List.contains_iff_mem.mpr (List.mem_eraseDups.mpr h))]
    · have hnew : as.eraseDups.contains a ≠ true := fun hcontains =>
        h (List.mem_eraseDups.mp (List.contains_iff_mem.mp hcontains))
      rw [eraseDups_append_of_notMem h, if_neg hnew]

mutual

/-- The expressions within an expression, itself included, from left to right. A query is a value that the database
finds, and its clauses are not entered. -/
def Expr.subterms : Expr → List Expr
  | e@(.lambda _ operand) | e@(.member operand _) | e@(.unary _ operand) | e@(.convert operand _) =>
    e :: operand.subterms
  | e@(.call (some target) _ _ args) => e :: (target.subterms ++ itemsSubterms args)
  | e@(.call none _ _ args) => e :: itemsSubterms args
  | e@(.binary _ left right) => e :: (left.subterms ++ right.subterms)
  | e@(.conditional test ifTrue ifFalse) => e :: (test.subterms ++ (ifTrue.subterms ++ ifFalse.subterms))
  | e@(.object members) => e :: membersSubterms members
  | e@(.array items) => e :: itemsSubterms items
  | e@(.param _) | e@(.static ..) | e@(.constant _) | e@(.captured ..) | e@(.query _) => [e]

/-- The expressions within several expressions. -/
def itemsSubterms : List Expr → List Expr
  | [] => []
  | e :: rest => e.subterms ++ itemsSubterms rest

/-- The expressions within the members of an object. -/
def membersSubterms : List (String × Expr) → List Expr
  | [] => []
  | (_, e) :: rest => e.subterms ++ membersSubterms rest

end

namespace Expr

/-- The member of a lambda parameter that an expression is. -/
def read? : Expr → Option (String × String)
  | member (param p) name => some (p, name)
  | _ => none

/-- The members of lambda parameters that occur in an expression, from left to right, each as often as it does. -/
def occurrences (e : Expr) : List (String × String) := e.subterms.filterMap read?

/-- Reads noted unless they have been before. -/
def note (seen reads : List (String × String)) : List (String × String) :=
  reads.foldl (fun seen read => if seen.contains read then seen else seen ++ [read]) seen

/-- Reads are noted part by part. -/
private theorem note_append (seen reads more : List (String × String)) :
    note seen (reads ++ more) = note (note seen reads) more := List.foldl_append

mutual

/-- **What is read is noted on the way through the expression**, by induction on the expression. -/
theorem readsAfter_eq : ∀ (e : Expr) (seen : List (String × String)),
    readsAfter seen e = note seen (e.subterms.filterMap read?)
  | .member target name, seen => by
    by_cases h : ∃ p, target = param p
    · obtain ⟨p, rfl⟩ := h
      rfl
    · have hnone : read? (member target name) = none := by
        unfold read?
        split
        · next heq => exact absurd ⟨_, (Expr.member.inj heq).1⟩ h
        · rfl
      rw [readsAfter_member fun p hp => h ⟨p, hp⟩, subterms, List.filterMap_cons_none hnone, readsAfter_eq target seen]
  | .call (some target) _ _ args, seen => by
    rw [readsAfter, subterms, List.filterMap_cons_none rfl, List.filterMap_append, note_append, ← readsAfter_eq target,
      itemsReadAfter_eq args]
  | .call none _ _ args, seen => by
    rw [readsAfter, subterms, List.filterMap_cons_none rfl, itemsReadAfter_eq args]
  | .binary _ left right, seen => by
    rw [readsAfter, subterms, List.filterMap_cons_none rfl, List.filterMap_append, note_append, ← readsAfter_eq left,
      readsAfter_eq right]
  | .unary _ operand, seen | .convert operand _, seen | .lambda _ operand, seen => by
    rw [readsAfter, subterms, List.filterMap_cons_none rfl, readsAfter_eq operand]
  | .conditional test a b, seen => by
    rw [readsAfter, subterms, List.filterMap_cons_none rfl, List.filterMap_append, List.filterMap_append, note_append,
      note_append, ← readsAfter_eq test, ← readsAfter_eq a, readsAfter_eq b]
  | .object members, seen => by
    rw [readsAfter, subterms, List.filterMap_cons_none rfl, membersReadAfter_eq members]
  | .array items, seen => by
    rw [readsAfter, subterms, List.filterMap_cons_none rfl, itemsReadAfter_eq items]
  | .param _, seen | .static .., seen | .constant _, seen | .captured .., seen | .query _, seen => rfl

/-- What items read are the reads among their subterms, in order and once each. -/
private theorem itemsReadAfter_eq : ∀ (es : List Expr) (seen : List (String × String)),
    itemsReadAfter seen es = note seen ((itemsSubterms es).filterMap read?)
  | [], _ => rfl
  | e :: rest, seen => by
    rw [itemsReadAfter, itemsSubterms, List.filterMap_append, note_append, ← readsAfter_eq e, itemsReadAfter_eq rest]

/-- What members read are the reads among their subterms, in order and once each. -/
private theorem membersReadAfter_eq : ∀ (ms : List (String × Expr)) (seen : List (String × String)),
    membersReadAfter seen ms = note seen ((membersSubterms ms).filterMap read?)
  | [], _ => rfl
  | (_, e) :: rest, seen => by
    rw [membersReadAfter, membersSubterms, List.filterMap_append, note_append, ← readsAfter_eq e,
      membersReadAfter_eq rest]

end

/-- **What is read are the occurrences**, without repetitions. -/
theorem reads_eq (e : Expr) : e.reads = e.occurrences.eraseDups :=
  (readsAfter_eq e []).trans (foldl_note_eq_eraseDups _)

/-- **What is read suffices.** An expression has the same value on any two bindings that agree on what it reads, and what
it reads are the members of parameters that occur in it, each once, in the order in which they first occur.

**Proof sketch.** Reads are collected in one pass over the expression, which adds each occurrence unless it is there,
so they are the occurrences without their repetitions. Evaluation looks at bindings only where a member of a parameter
occurs, by induction on the expression. -/
theorem reads_suffice (e : Expr) :
    (∀ {b b' : Bindings}, b.AgreeOn b' e.reads → Host.evaluate b e = Host.evaluate b' e) ∧
    e.reads.Nodup ∧ (∀ read, read ∈ e.reads ↔ read ∈ e.occurrences) ∧
    e.reads.Pairwise fun a b => e.occurrences.idxOf a < e.occurrences.idxOf b := by
  refine ⟨?_, ?_, ?_, ?_⟩
  · intro b b' h
    exact Host.evaluate_congr h
  · rw [reads_eq]
    exact nodup_eraseDups e.occurrences
  · intro read
    rw [reads_eq, List.mem_eraseDups]
  · rw [reads_eq]
    exact pairwise_idxOf_eraseDups e.occurrences

/-- The value of `u.A + v.B + u.A` does not change with `u.C`. -/
theorem reads_suffice_sum :
    let sum := binary .add (binary .add (member (param "u") "A") (member (param "v") "B")) (member (param "u") "A")
    let b : Bindings := fun p _ => if p = "u" then some (.int 1) else some (.int 2)
    sum.reads = [("u", "A"), ("v", "B")] ∧ Host.evaluate (b.bind "u" "C" (.int 3)) sum = Host.evaluate b sum := by
  refine ⟨rfl, (reads_suffice _).1 fun read hread => ?_⟩
  obtain rfl | hread := List.mem_cons.mp hread
  · rfl
  · obtain rfl := List.mem_singleton.mp hread
    rfl

end Expr

/-! ## Fetched values -/

/-- A row has the value of each member of a parameter that is read under the name of its column. -/
def Row.Shows (r : Row) (values : String → String → Value) (columns : List HiddenColumn) : Prop :=
  ∀ h ∈ columns, r.get h.column = .ok (values h.param h.member)

namespace Deferred

variable {d : Deferred} {r : Row} {values : String → String → Value}

/-- The outcome of an evaluation as one of a projection. -/
def outcome (d : Deferred) : Evaluation Value → Compilation Value
  | .ok v => .ok v
  | .error .unevaluable => .error (.error (.projectionNotEvaluable d.member))
  | .error (.fault f) => .error (.fault f)

/-- Values found in a row, after some that are right. -/
theorem foldlM_bind {columns : List HiddenColumn} (h : r.Shows values columns) {b : Bindings}
    {done : List (String × String)} (hb : b.AgreeOn (fun p m => some (values p m)) done) :
    ∃ b', columns.foldlM (fun b (c : HiddenColumn) => return b.bind c.param c.member (← r.get c.column)) b =
        Except.ok b' ∧
      b'.AgreeOn (fun p m => some (values p m)) (done ++ columns.map fun c => (c.param, c.member)) := by
  induction columns generalizing b done with
  | nil => exact ⟨b, rfl, by simpa using hb⟩
  | cons c rest ih =>
    obtain ⟨hc, hrest⟩ := List.forall_mem_cons.mp h
    have hbound : (b.bind c.param c.member (values c.param c.member)).AgreeOn (fun p m => some (values p m))
        (done ++ [(c.param, c.member)]) := by
      intro read hread
      unfold Bindings.bind
      split
      · next heq => rw [heq.1, heq.2]
      · next hne =>
        obtain hread | hread := List.mem_append.mp hread
        · exact hb read hread
        · obtain rfl := List.mem_singleton.mp hread
          exact absurd ⟨rfl, rfl⟩ hne
    obtain ⟨b', hb', hagree⟩ := ih hrest hbound
    refine ⟨b', ?_, by simpa using hagree⟩
    rw [List.foldlM_cons, hc]
    exact hb'

/-- **On a row that shows what is read**, a projection is evaluated as its expression is on the values shown. -/
theorem evaluate_eq (hcolumns : d.columns.map (fun h => (h.param, h.member)) = d.expr.reads)
    (h : r.Shows values d.columns) :
    d.evaluate r = d.outcome (Host.evaluate (fun p m => some (values p m)) d.expr) := by
  obtain ⟨b, hb, hagree⟩ := @foldlM_bind _ _ _ h .none [] nofun
  rw [List.nil_append, hcolumns] at hagree
  unfold evaluate bindings
  rw [hb]
  dsimp only
  rw [Host.evaluate_congr hagree]
  rcases Host.evaluate _ d.expr with (_ | f) | v <;> rfl

end Deferred

end LambdaSql
