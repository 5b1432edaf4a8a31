import LambdaSql.Proofs.Binding.Consistency
import LambdaSql.Proofs.Binding.Following

/-!
# Names within a batch

The statements of a batch share their placeholders. Where a statement wants a fixed name that has another value already,
the position of the statement is put behind the name. If that name is free, or has the same value, all is well: statements
that compile alone compile as a batch. What can go wrong is that the other name is wanted, too.

**Proof sketch.** Each statement is written beside itself: alone, and in the batch. In the batch every placeholder in sight
is one of an earlier statement, one of this statement that stands for the same value when it is alone, or a generated one.

## Main definitions

* `wantedAt` - the values that a statement of a batch wants under fixed names.
* `IsNameOf` - a name with or without the position of the statement.
* `Separable` - the other name of a value is wanted for the same value only.
* `Beside` - the parameters of a statement alone beside those of the batch.

## Main results

* `follows_bind_fixed`, `follows_bind_generated` - one value.
* `Beside.merge` - the statement for a row.
* `Compiler.batch_of_alone` - batches of statements that compile alone.
-/

namespace LambdaSql

/-! ## Names -/

/-- A name with a position behind it. -/
def positioned (name : String) (position : Nat) : String := name ++ "_" ++ toString position

/-- A text is cut in one way only at the last place of a character. -/
private theorem append_cons_inj_of_notMem {x : Char} {as bs cs ds : List Char} (hcs : x ∉ cs) (hds : x ∉ ds)
    (h : as ++ x :: cs = bs ++ x :: ds) : as = bs ∧ cs = ds := by
  obtain ⟨es, rfl, htail⟩ | ⟨es, rfl, htail⟩ := List.append_eq_append_iff.mp h
  · cases es with
    | nil => exact ⟨(List.append_nil as).symm, (List.cons.inj htail).2⟩
    | cons e es =>
      rw [(List.cons.inj htail).2] at hcs
      simp at hcs
  · cases es with
    | nil => exact ⟨List.append_nil bs, (List.cons.inj htail).2.symm⟩
    | cons e es =>
      rw [(List.cons.inj htail).2] at hds
      simp at hds

/-- A name with a position behind it tells both. -/
theorem positioned_inj {m n : String} {i j : Nat} (h : positioned m i = positioned n j) : m = n ∧ i = j := by
  have hdigits (k : Nat) : '_' ∉ (toString k).toList := by
    intro hmem
    rw [Nat.toString_eq_ofList_toDigits, String.toList_ofList] at hmem
    exact absurd (Nat.isDigit_of_mem_toDigits (by decide) (by decide) hmem) (by decide)
  have hlists : m.toList ++ '_' :: (toString i).toList = n.toList ++ '_' :: (toString j).toList := by
    have h := congrArg String.toList h
    rw [positioned, positioned, String.toList_append, String.toList_append, String.toList_append, String.toList_append,
      List.append_assoc, List.append_assoc] at h
    exact h
  obtain ⟨hname, hposition⟩ := append_cons_inj_of_notMem (hdigits i) (hdigits j) hlists
  refine ⟨String.toList_inj.mp hname, Parameters.generated_injective "" ?_⟩
  exact congrArg ("" ++ ·) (String.toList_inj.mp hposition)

/-- The values that the statement at a position wants under fixed names. -/
def wantedAt (skss : List (List Sketch)) (position : Nat) : List (String × Value) :=
  (skss[position]?.getD []).flatMap Sketch.fixed

/-- A name is a fixed name of the statement at a position, or has the position behind it. -/
def IsNameOf (name : String) (position : Nat) (other : String) : Prop := other = name ∨ other = positioned name position

/-- A name reads as a generated one. -/
def ReadsGenerated (stem name : String) : Prop := ∃ number : Nat, name = stem ++ toString number

/-- A name that the statement at a position wants for a value may be taken already: it is bound to another value, or
reads as a generated one. -/
def MayBeTaken (stem : String) (skss : List (List Sketch)) (position : Nat) (name : String) (v : Value) : Prop :=
  ReadsGenerated stem name ∨ ∃ earlier ≤ position, ∃ m u, (m, u) ∈ wantedAt skss earlier ∧ IsNameOf m earlier name ∧
    (u == v) = false

/-- The names within a batch can be told apart: where a name may be taken already, the name with the position behind it
is not, since it is wanted for the same value only, and reads as no generated one. -/
structure Separable (stem : String) (skss : List (List Sketch)) : Prop where
  same : ∀ {position name v}, (name, v) ∈ wantedAt skss position → MayBeTaken stem skss position name v →
    ∀ earlier ≤ position, ∀ w, (positioned name position, w) ∈ wantedAt skss earlier → (w == v) = true
  fixed : ∀ {position name v}, (name, v) ∈ wantedAt skss position → MayBeTaken stem skss position name v →
    ¬ ReadsGenerated stem (positioned name position)

/-- No name of the statements up to a position reads as a generated one. -/
def UngeneratedUpTo (stem : String) (skss : List (List Sketch)) (position : Nat) : Prop :=
  ∀ earlier ≤ position, ∀ {name v other}, (name, v) ∈ wantedAt skss earlier → IsNameOf name earlier other →
    ¬ ReadsGenerated stem other

/-! ## Alone and in the batch -/

/-- In a batch, a fixed placeholder that has another value gets the position behind its name. -/
theorem Parameters.bind_batched {ps : Parameters} {position : Nat} (h : ps.statement = some position) (name : String)
    (v : Value) (native : NativeType) :
    ps.bind name v native =
      if ps.agrees? (ps.token name) v = some false then
        if ps.agrees? (ps.token (positioned name position)) v = some false then
          .error (.placeholderConflict (ps.token (positioned name position)))
        else .ok (ps.token (positioned name position), ps.pushNew (ps.token (positioned name position)) v native)
      else .ok (ps.token name, ps.pushNew (ps.token name) v native) := by
  unfold bind positioned
  rw [h]
  rcases hagrees : ps.agrees? (ps.token name) v with _ | _ | _ <;> simp only [hagrees]
  · rfl
  · rcases hrenamed : ps.agrees? (ps.token (name ++ "_" ++ toString position)) v with _ | _ | _ <;> simp
  · rfl

/-- What a placeholder of the batch is when a statement is written at a position: one of an earlier statement, one of this
statement, which has the same value when the statement is alone, or a generated one. -/
inductive Traced (stem : String) (skss : List (List Sketch)) (position : Nat) (ps : Parameters) (next : Nat)
    (name : String) (value : Value) : Prop
  | earlier {other : Nat} {m : String} {v : Value} : other < position → (m, v) ∈ wantedAt skss other →
    IsNameOf m other name → value.Agrees v → Traced stem skss position ps next name value
  | own {m : String} {v : Value} {p : Parameter} : (m, v) ∈ wantedAt skss position → IsNameOf m position name →
    value.Agrees v → ps.visible? (ps.token m) = some p → value.Agrees p.value →
    Traced stem skss position ps next name value
  | generated {number : Nat} : number < next → name = stem ++ toString number →
    Traced stem skss position ps next name value

/-- The parameters of a statement alone beside those of the batch in which it is at a position. -/
structure Beside (c : Compiler) (skss : List (List Sketch)) (position : Nat) (outer outer' : List Parameter)
    (ps qs : Parameters) : Prop where
  alone : ps.statement = none
  batch : qs.statement = some position
  mark : ps.mark = c.options.mark ∧ qs.mark = c.options.mark
  stem : ps.stem = c.options.stem ∧ qs.stem = c.options.stem
  outer : ps.outer = outer ∧ qs.outer = outer'
  traced : ∀ name p, qs.visible? (qs.token name) = some p →
    Traced c.options.stem skss position ps qs.next name p.value
  vouched : qs.Vouched

section Values

variable {c : Compiler} {skss : List (List Sketch)} {position : Nat} {outer outer' : List Parameter}
  {ps ps' qs : Parameters} {name : String} {v : Value} {native : NativeType} {next next' : Nat} {stem : String}

/-- A placeholder remains what it is when more is bound. -/
theorem Traced.mono (h : Traced stem skss position ps next name v) (hnext : next ≤ next')
    (hps : ∀ {m u p}, (m, u) ∈ wantedAt skss position → ps.visible? (ps.token m) = some p →
      ∃ q, ps'.visible? (ps'.token m) = some q ∧ q.value.Agrees p.value) :
    Traced stem skss position ps' next' name v := by
  cases h with
  | earlier hlt hwanted hname hvalue => exact .earlier hlt hwanted hname hvalue
  | own hwanted hname hvalue hp halone =>
    obtain ⟨q, hq, hsame⟩ := hps hwanted hp
    exact .own hwanted hname hvalue hq (halone.trans hsame.symm)
  | generated hlt heq => exact .generated (Nat.lt_of_lt_of_le hlt hnext) heq

/-- A name that has another value in the batch may be taken. -/
theorem Traced.mayBeTaken {value : Value} (h : Traced stem skss position ps next name value) (hne : (value == v) = false) :
    MayBeTaken stem skss position name v := by
  have hother {u : Value} (hvalue : value.Agrees u) : (u == v) = false := by
    rw [Bool.eq_false_iff]
    exact fun hsame => by simp [hvalue.beq hsame] at hne
  cases h with
  | earlier hlt hwanted hname hvalue => exact .inr ⟨_, hlt.le, _, _, hwanted, hname, hother hvalue⟩
  | own hwanted hname hvalue => exact .inr ⟨_, le_rfl, _, _, hwanted, hname, hother hvalue⟩
  | generated _ heq => exact .inl ⟨_, heq⟩

/-- If a name may be taken, the name with the position behind it is free or has the same value. -/
theorem Beside.positioned_free (h : Beside c skss position outer outer' ps qs) (hsep : Separable c.options.stem skss)
    (hwanted : (name, v) ∈ wantedAt skss position) (halone : ps.agrees? (ps.token name) v ≠ some false)
    (htaken : MayBeTaken c.options.stem skss position name v) :
    qs.agrees? (qs.token (positioned name position)) v ≠ some false := by
  unfold Parameters.agrees?
  cases hp : qs.visible? (qs.token (positioned name position)) with
  | none => simp
  | some p =>
    have hsame : (p.value == v) = true := by
      cases h.traced _ p hp with
      | @earlier other m w hlt hm hname hvalue =>
        obtain rfl | heq := hname
        · exact hvalue.beq (hsep.same hwanted htaken other hlt.le w hm)
        · exact absurd (positioned_inj heq).2.symm hlt.ne
      | @own m w q hm hname hvalue hq hsame =>
        obtain rfl | heq := hname
        · exact hvalue.beq (hsep.same hwanted htaken position le_rfl w hm)
        · obtain ⟨rfl, -⟩ := positioned_inj heq
          exact hsame.beq (Parameters.beq_of_agrees? halone hq)
      | @generated number _ heq => exact absurd ⟨number, heq⟩ (hsep.fixed hwanted htaken)
    simp [hsame]

/-- One more value that the statement wants is bound alone and in the batch. -/
theorem Beside.pushNew (h : Beside c skss position outer outer' ps qs) (hwanted : (name, v) ∈ wantedAt skss position)
    (halone : ps.agrees? (ps.token name) v ≠ some false) {other : String} (hother : IsNameOf name position other)
    (hbatch : qs.agrees? (qs.token other) v ≠ some false) :
    Beside c skss position outer outer' (ps.pushNew (ps.token name) v native) (qs.pushNew (qs.token other) v native) := by
  obtain ⟨houter, hstatement, -⟩ := ps.pushNew_frame (ps.token name) v native
  obtain ⟨houter', hstatement', hnext⟩ := qs.pushNew_frame (qs.token other) v native
  have hps : ps.Extends (ps.pushNew (ps.token name) v native) := Parameters.extends_pushNew ..
  have hqs : qs.Extends (qs.pushNew (qs.token other) v native) := Parameters.extends_pushNew ..
  refine ⟨hstatement.trans h.alone, hstatement'.trans h.batch, ⟨hps.mark.trans h.mark.1, hqs.mark.trans h.mark.2⟩,
    ⟨hps.stem.trans h.stem.1, hqs.stem.trans h.stem.2⟩, ⟨houter.trans h.outer.1, houter'.trans h.outer.2⟩, ?_,
    h.vouched.pushNew hbatch⟩
  intro x p hp
  rw [hqs.token_eq] at hp
  by_cases hx : x = other
  · subst hx
    obtain ⟨p', hp', hvalue⟩ := Parameters.visible?_pushNew_self native hbatch
    cases hp.symm.trans hp'
    obtain ⟨q, hq, hq'⟩ := Parameters.visible?_pushNew_self native halone
    exact .own hwanted hother hvalue (by rw [hps.token_eq]; exact hq) (hvalue.trans hq'.symm)
  · rw [Parameters.visible?_pushNew_of_ne fun heq => hx (qs.token_injective heq)] at hp
    refine (h.traced x p hp).mono hnext.ge fun _ hq => ?_
    rw [hps.token_eq]
    exact Parameters.visible?_pushNew_of_visible? halone hq

/-- **Values under fixed names** are bound in the batch if they are bound alone.

**Proof sketch.** Alone the value agrees with what its name has. If it does not in the batch, what the name has there
was bound by another statement, so that the name with the position is wanted by nobody else and can be taken. -/
theorem follows_bind_fixed (hsep : Separable c.options.stem skss) (hwanted : (name, v) ∈ wantedAt skss position) :
    Writing.Follows (Beside c skss position outer outer') (Writing.bind (some name) v native)
      (Writing.bind (some name) v native) := by
  intro ps _ ps' qs h hgives
  obtain ⟨token, hbind, -⟩ := Writing.gives_named.mp hgives
  rw [ps.bind_unbatched h.alone] at hbind
  split at hbind
  · cases hbind
  · next halone =>
    cases hbind
    have hbind := qs.bind_batched h.batch name v native
    by_cases hbatch : qs.agrees? (qs.token name) v = some false
    · have htaken : MayBeTaken c.options.stem skss position name v := by
        obtain ⟨p, hp, hne⟩ := Option.map_eq_some_iff.mp hbatch
        exact (h.traced name p hp).mayBeTaken hne
      have hfree := h.positioned_free hsep hwanted halone htaken
      rw [if_pos hbatch, if_neg hfree] at hbind
      exact ⟨_, _, Writing.gives_named.mpr ⟨_, hbind, rfl⟩, h.pushNew hwanted halone (.inr rfl) hfree⟩
    · rw [if_neg hbatch] at hbind
      exact ⟨_, _, Writing.gives_named.mpr ⟨_, hbind, rfl⟩, h.pushNew hwanted halone (.inl rfl) hbatch⟩

/-- **Values under generated names** are always bound, and under new ones if there may be statements around.

**Proof sketch.** What the table of the batch shows can be traced back to a statement. A name other than the generated
one is traced as before, since no fixed name of this statement is generated where tables outside are in sight; and a
name in sight that were generated would have a smaller number. -/
theorem follows_bind_generated
    (hnew : outer = [] ∧ outer' = [] ∨ UngeneratedUpTo c.options.stem skss position) :
    Writing.Follows (Beside c skss position outer outer') (Writing.bind none v native) (Writing.bind none v native) := by
  intro ps _ ps' qs h hgives
  cases hgives
  refine ⟨_, _, rfl, ?_⟩
  have hps := ps.extends_push (ps.token (ps.stem ++ toString ps.next)) v native
  refine ⟨h.alone, h.batch, h.mark, h.stem, h.outer, fun x p hp => ?_, h.vouched.push fun q hq => ?_⟩
  · by_cases hx : x = qs.stem ++ toString qs.next
    · exact .generated (Nat.lt_succ_self qs.next) (h.stem.2 ▸ hx)
    · replace hp : (qs.push (qs.token (qs.stem ++ toString qs.next)) v native).visible? (qs.token x) = some p := hp
      rw [Parameters.visible?_push_of_ne fun heq => hx (qs.token_injective heq)] at hp
      refine (h.traced x p hp).mono (Nat.le_succ qs.next) fun {m u q} hm hq => ?_
      -- alone, a fixed name is not bound once more by a generated one
      refine ⟨q, ?_, .refl _⟩
      change (ps.push (ps.token (ps.stem ++ toString ps.next)) v native).visible? (ps.token m) = some q
      obtain ⟨houter, -⟩ | hnew := hnew
      · rw [Parameters.visible?, h.outer.1, houter, List.find?_nil, Option.or_none] at hq
        rw [Parameters.visible?, hps.get? hq, Option.some_or]
      · rw [Parameters.visible?_push_of_ne fun heq => ?_]
        · exact hq
        · exact hnew position le_rfl hm (.inl rfl) ⟨ps.next, h.stem.1 ▸ ps.token_injective heq⟩
  · obtain ⟨-, houter⟩ | hnew := hnew
    · rw [h.outer.2, houter] at hq
      cases hq
    · -- nothing in sight has the next generated name
      obtain ⟨p, hp⟩ : ∃ p, qs.visible? (qs.token (qs.stem ++ toString qs.next)) = some p := by
        rw [← Option.isSome_iff_exists, Parameters.visible?, Option.isSome_or, hq]
        simp
      cases h.traced _ p hp with
      | earlier hlt hwanted hname => exact absurd ⟨qs.next, by rw [h.stem.2]⟩ (hnew _ hlt.le hwanted hname)
      | own hwanted hname => exact absurd ⟨qs.next, by rw [h.stem.2]⟩ (hnew position le_rfl hwanted hname)
      | generated hlt heq =>
        rw [h.stem.2] at heq
        exact absurd (Parameters.generated_injective _ heq).symm hlt.ne

end Values

/-! ## Statements for rows -/

section Rows

variable {c : Compiler} {skss : List (List Sketch)} {position : Nat} {ps ps' qs own own' : Parameters}

/-- A statement within others begins beside itself. -/
theorem Beside.child (h : Beside c skss position [] [] ps qs) :
    Beside c skss position ps.entries qs.entries ps.child qs.child := by
  refine ⟨h.alone, h.batch, h.mark, h.stem, ⟨Parameters.outer_child h.outer.1, Parameters.outer_child h.outer.2⟩,
    fun x p hp => ?_, nofun⟩
  rw [Parameters.visible?_child h.outer.2] at hp
  refine (h.traced x p hp).mono le_rfl fun {m u q} _ hq => ⟨q, ?_, .refl _⟩
  rw [Parameters.visible?_child h.outer.1]
  exact hq

/-- **The parameters of a statement for a row** are added in the batch if they are added alone.

**Proof sketch.** In the batch nothing objects to merging, as each entry has been checked against those outside when
it was bound. What is shown after merging was shown before or by the statement for the row, and is traced accordingly.
-/
theorem Beside.merge (h : Beside c skss position [] [] ps qs)
    (hown : Beside c skss position ps.entries qs.entries own own') (hmerge : ps.mergeChecked own = .ok ps') :
    ∃ qs', qs.mergeChecked own' = .ok qs' ∧ Beside c skss position [] [] ps' qs' := by
  obtain ⟨rfl, -⟩ := Parameters.merge_of_mergeChecked hmerge
  obtain ⟨houter, hstatement⟩ := ps.mergeEntries_frame own.entries
  obtain ⟨houter', hstatement'⟩ := qs.mergeEntries_frame own'.entries
  have hps := ps.extends_merge own
  have hqs := qs.extends_merge own'
  have hbatch := Parameters.mergeChecked_of_vouched hown.vouched hown.outer.2
  have htoken (m : String) : own.token m = ps.token m := by
    rw [Parameters.token, Parameters.token, hown.mark.1, h.mark.1]
  have hbesideOuter : (qs.merge own').outer = [] := houter'.trans h.outer.2
  refine ⟨_, hbatch, hstatement.trans h.alone, hstatement'.trans h.batch,
    ⟨hps.mark.trans h.mark.1, hqs.mark.trans h.mark.2⟩, ⟨hps.stem.trans h.stem.1, hqs.stem.trans h.stem.2⟩,
    ⟨houter.trans h.outer.1, hbesideOuter⟩, fun x p hp => ?_, fun p _ q hq => ?_⟩
  · rw [hqs.token_eq, Parameters.visible?, hbesideOuter, List.find?_nil, Option.or_none] at hp
    -- what is shown was there before, or comes from the row
    obtain hold | ⟨-, r, hr, hvalue⟩ := Parameters.get?_merge hp
    · have hvisible : qs.visible? (qs.token x) = some p := by rw [Parameters.visible?, hold, Option.some_or]
      refine (h.traced x p hvisible).mono (Nat.le_max_left ..) fun {m u q} _ hq => ⟨q, ?_, .refl _⟩
      rw [Parameters.visible?, h.outer.1, List.find?_nil, Option.or_none] at hq
      rw [hps.token_eq, Parameters.visible?, hps.get? hq, Option.some_or]
    · have hvisible : own'.visible? (own'.token x) = some r := by
        rw [show own'.token x = qs.token x by rw [Parameters.token, Parameters.token, hown.mark.2, h.mark.2],
          Parameters.visible?, hr, Option.some_or]
      rw [hvalue]
      refine (hown.traced x r hvisible).mono (Nat.le_max_right ..) fun {m u q} _ hq => ?_
      rw [hps.token_eq, ← htoken]
      exact Parameters.visible?_merge h.outer.1 hown.outer.1 hmerge hq
  · rw [hbesideOuter] at hq
    cases hq

end Rows

/-! ## Statements of a batch -/

/-- In bulk updates, where statements are within others, there are no generated names, or none that a fixed name can be
taken for. -/
def RowsSeparable (stem : String) (statements : List Statement) (skss : List (List Sketch)) : Prop :=
  ∀ position u, statements[position]? = some (.update u) → u.isBulk = true →
    (∀ sk ∈ skss[position]?.getD [], sk.IsFixed) ∨ UngeneratedUpTo stem skss position

namespace Compiler

open Emission

variable {c : Compiler} {statements : List Statement} {skss : List (List Sketch)} {sks : List Sketch} {sk : Sketch}
  {position : Nat} {outer outer' : List Parameter} {ps ps' qs : Parameters}

/-- A named value of a sketch is wanted at the position of its statement. -/
private theorem mem_wantedAt (hat : skss[position]? = some sks) (hsk : sk ∈ sks) {name : String} {v : Value}
    {native : NativeType} (hmem : Mark.value (some name) v native ∈ sk) : (name, v) ∈ wantedAt skss position := by
  rw [wantedAt, hat]
  exact List.mem_flatMap.mpr ⟨sk, hsk, List.mem_filterMap.mpr ⟨_, hmem, rfl⟩⟩

/-- The values of a statement are bound beside themselves. -/
theorem keeps_beside (hsep : Separable c.options.stem skss) (hat : skss[position]? = some sks) (hsk : sk ∈ sks)
    (hnew : sk.IsFixed ∨ outer = [] ∧ outer' = [] ∨ UngeneratedUpTo c.options.stem skss position) :
    sk.Keeps (Beside c skss position outer outer') := by
  intro name v native hmem
  cases name with
  | some name => exact follows_bind_fixed hsep (mem_wantedAt hat hsk hmem)
  | none =>
    obtain hfixed | hnew := hnew
    · exact absurd hmem (hfixed v native)
    · exact follows_bind_generated hnew

/-- The statement for a row compiles in the batch if it compiles alone. -/
theorem follows_emitRow (hsep : Separable c.options.stem skss) (hat : skss[position]? = some sks) {u : Update}
    {index : Nat} {r : Record} (hplan : c.sketchPlan (planRow u index r) (sketchUpdate c.dialect) = .ok sk)
    (hsk : sk ∈ sks) (hnew : sk.IsFixed ∨ UngeneratedUpTo c.options.stem skss position) :
    (c.emitRow u index r).Follows (Beside c skss position [] []) := by
  intro ps s ps' qs hbeside h
  obtain ⟨change, hown, -, hmerge⟩ := gives_emitRow.mp h
  obtain ⟨p, own', hown', hbeside'⟩ := follows_planAndWrite follows_writeUpdate hplan
    (keeps_beside hsep hat hsk (hnew.imp_right .inr)) hbeside.child hown
  obtain ⟨qs', hmerge', hqs'⟩ := hbeside.merge hbeside' hmerge
  exact ⟨{ phrase := p, parameters := own' }, qs', gives_emitRow.mpr ⟨change, hown', rfl, hmerge'⟩, hqs'⟩

/-- **A statement compiles in a batch** if it compiles alone, when names can be told apart.

**Proof sketch.** For each kind of statement, the sketch is written in the batch beside itself alone. The relation
between both is kept by each value of the sketch, and so by the whole of it. -/
theorem follows_emitStatement (hsep : Separable c.options.stem skss) {s : Statement}
    (hsks : c.statementSketches s = .ok sks) (hat : skss[position]? = some sks)
    (hrows : ∀ u, s = .update u → u.isBulk = true →
      (∀ sk ∈ sks, sk.IsFixed) ∨ UngeneratedUpTo c.options.stem skss position) :
    (c.emitStatement s).Follows (Beside c skss position [] []) := by
  have hkeeps {sk : Sketch} (hsk : sk ∈ sks) : sk.Keeps (Beside c skss position [] []) :=
    keeps_beside hsep hat hsk (.inr (.inl ⟨rfl, rfl⟩))
  intro ps a ps' qs hbeside h
  cases s with
  | select q =>
    obtain ⟨sk, hplan, hsks⟩ := Except.bind_eq_ok.mp hsks
    cases hsks
    simp only [emitStatement, gives_bind, gives_pure] at h ⊢
    obtain ⟨_, _, hselect, -, rfl⟩ := h
    obtain ⟨b, qs', hb, hR⟩ := follows_emitSelect hplan (hkeeps List.mem_cons_self) hbeside hselect
    exact ⟨_, qs', ⟨b, qs', hb, rfl, rfl⟩, hR⟩
  | delete s =>
    obtain ⟨sk, hplan, hsks⟩ := Except.bind_eq_ok.mp hsks
    cases hsks
    simp only [emitStatement, gives_bind, gives_pure] at h ⊢
    obtain ⟨_, _, hdelete, -, rfl⟩ := h
    obtain ⟨b, qs', hb, hR⟩ := follows_emitDelete hplan (hkeeps List.mem_cons_self) hbeside hdelete
    exact ⟨_, qs', ⟨b, qs', hb, rfl, rfl⟩, hR⟩
  | update u =>
    unfold emitStatement at h ⊢
    cases hu : u.rows with
    | none =>
      rw [statementSketches_single hu] at hsks
      obtain ⟨sk, hplan, hsks⟩ := Except.bind_eq_ok.mp hsks
      cases hsks
      simp only [hu, gives_bind, gives_pure] at h ⊢
      obtain ⟨_, _, hupdate, -, rfl⟩ := h
      obtain ⟨b, qs', hb, hR⟩ := follows_emitUpdate hplan (hkeeps List.mem_cons_self) hbeside hupdate
      exact ⟨_, qs', ⟨b, qs', hb, rfl, rfl⟩, hR⟩
    | some rows =>
      rw [statementSketches_rows hu] at hsks
      have hbulk : u.isBulk = true := by rw [Update.isBulk, hu]; rfl
      simp only [hu, gives_bind, gives_pure] at h ⊢
      obtain ⟨_, _, hbulkGives, -, rfl⟩ := h
      obtain ⟨hproblem, e, he, hkeys, hss⟩ := gives_emitBulk.mp hbulkGives
      have hfollows : Emission.Follows (Beside c skss position [] [])
          (rows.zipIdx.mapM fun ri => c.emitRow u ri.2 ri.1) := by
        refine .mapM fun row hrow => ?_
        obtain ⟨sk, hsk, hplan⟩ := Except.exists_mem_of_mapM hsks row hrow
        exact follows_emitRow hsep hat hplan hsk ((hrows u rfl hbulk).imp_left fun h => h sk hsk)
      obtain ⟨ss, qs', hss', hR⟩ := hfollows hbeside hss
      exact ⟨_, qs', ⟨ss, qs', gives_emitBulk.mpr ⟨hproblem, e, he, hkeys, hss'⟩, rfl, rfl⟩, hR⟩

/-- What compiles alone is compiled from new parameters.

**Proof sketch.** By the kind of statement: each one that compiles alone has been emitted from new parameters. -/
theorem gives_of_alone {s : Statement} {results : List Compiled} (h : c.alone s = .ok results) :
    ∃ r qs, (c.emitStatement s).Gives c.newParameters r qs := by
  cases s with
  | select q =>
    obtain ⟨r, hr, -⟩ := Except.bind_eq_ok.mp h
    obtain ⟨⟨_, qs⟩, hrun, -⟩ := Except.bind_eq_ok.mp hr
    simp only [emitStatement, gives_bind, gives_pure]
    exact ⟨_, qs, _, qs, hrun, rfl, rfl⟩
  | delete s =>
    obtain ⟨r, hr, -⟩ := Except.bind_eq_ok.mp h
    obtain ⟨⟨_, qs⟩, hrun, -⟩ := Except.bind_eq_ok.mp hr
    simp only [emitStatement, gives_bind, gives_pure]
    exact ⟨_, qs, _, qs, hrun, rfl, rfl⟩
  | update u =>
    obtain ⟨r, hr, -⟩ := Except.bind_eq_ok.mp h
    unfold update at hr
    unfold emitStatement
    cases hu : u.rows with
    | none =>
      rw [hu] at hr
      obtain ⟨⟨_, qs⟩, hrun, -⟩ := Except.bind_eq_ok.mp hr
      simp only [hu, gives_bind, gives_pure]
      exact ⟨_, qs, _, qs, hrun, rfl, rfl⟩
    | some rows =>
      rw [hu] at hr
      obtain ⟨⟨_, qs⟩, hrun, -⟩ := Except.bind_eq_ok.mp hr
      simp only [hu, gives_bind, gives_pure]
      exact ⟨_, qs, _, qs, hrun, rfl, rfl⟩

end Compiler

/-! ## Batches -/

/-- The parameters of a batch between two statements: what is in sight are placeholders of the statements before, and
generated ones. -/
structure Settled (c : Compiler) (skss : List (List Sketch)) (position : Nat) (qs : Parameters) : Prop where
  mark : qs.mark = c.options.mark
  stem : qs.stem = c.options.stem
  outer : qs.outer = []
  traced : ∀ name p, qs.visible? (qs.token name) = some p →
    (∃ earlier < position, ∃ m v, (m, v) ∈ wantedAt skss earlier ∧ IsNameOf m earlier name ∧ p.value.Agrees v) ∨
      ∃ number < qs.next, name = c.options.stem ++ toString number
  vouched : qs.Vouched

section Batches

variable {c : Compiler} {skss : List (List Sketch)} {position : Nat} {ps qs : Parameters}

/-- A statement begins beside the batch. -/
theorem Settled.beside (h : Settled c skss position qs) :
    Beside c skss position [] [] c.newParameters (qs.beginStatement position) := by
  refine ⟨rfl, rfl, ⟨rfl, h.mark⟩, ⟨rfl, h.stem⟩, ⟨rfl, h.outer⟩, fun name p hp => ?_, h.vouched⟩
  obtain ⟨earlier, hlt, m, v, hwanted, hname, hvalue⟩ | ⟨number, hlt, heq⟩ := h.traced name p hp
  · exact .earlier hlt hwanted hname hvalue
  · exact .generated hlt heq

/-- After a statement beside others, what was written before is settled. -/
theorem Beside.settled (h : Beside c skss position [] [] ps qs) : Settled c skss (position + 1) qs := by
  refine ⟨h.mark.2, h.stem.2, h.outer.2, fun name p hp => ?_, h.vouched⟩
  cases h.traced name p hp with
  | earlier hlt hwanted hname hvalue => exact .inl ⟨_, Nat.lt_succ_of_lt hlt, _, _, hwanted, hname, hvalue⟩
  | own hwanted hname hvalue => exact .inl ⟨_, Nat.lt_succ_self position, _, _, hwanted, hname, hvalue⟩
  | generated hlt heq => exact .inr ⟨_, hlt, heq⟩

/-- The members of a list are compiled one after the other if each compiles at its position. -/
theorem Emission.exists_mapM_zipIdx {α β : Type} {I : Nat → Parameters → Prop} {f : α × Nat → Emission β} {as : List α}
    {start : Nat} (h : ∀ i a qs, as[i]? = some a → I (start + i) qs →
      ∃ b qs', (f (a, start + i)).Gives qs b qs' ∧ I (start + i + 1) qs') (hstart : I start qs) :
    ∃ bs qs', ((as.zipIdx start).mapM f).Gives qs bs qs' := by
  induction as generalizing start qs with
  | nil => exact ⟨[], qs, rfl⟩
  | cons a rest ih =>
    obtain ⟨b, qs₁, hb, hqs₁⟩ := h 0 a qs rfl hstart
    have hrest : ∀ i a qs, rest[i]? = some a → I (start + 1 + i) qs →
        ∃ b qs', (f (a, start + 1 + i)).Gives qs b qs' ∧ I (start + 1 + i + 1) qs' := by
      intro i a qs ha hqs
      rw [Nat.add_right_comm] at hqs ⊢
      exact h (i + 1) a qs ha hqs
    obtain ⟨bs, qs₂, hbs⟩ := ih hrest hqs₁
    simp only [List.zipIdx_cons, List.mapM_cons, gives_bind, gives_pure]
    exact ⟨_, qs₂, b, qs₁, hb, bs, qs₂, hbs, rfl, rfl⟩

/-- **Statements that compile alone compile as a batch** if their names can be told apart: where a fixed name is bound to
another value already, or reads as a generated name, the name with the position behind it is wanted for the same value
only, and reads as no generated name. In bulk updates no fixed name may be taken for a generated one.

**Proof sketch.** One statement after another, what the batch has bound so far is settled: it is wanted by the
statements so far, for the values that they want. The next statement is written beside itself alone, and binding fails
for none of its values, because a name that is taken by another value is bound with the position behind it. -/
theorem Compiler.batch_of_alone {statements : List Statement} (hne : statements ≠ [])
    (halone : ∀ s ∈ statements, ∃ results, c.alone s = .ok results) :
    ∃ skss, statements.mapM c.statementSketches = .ok skss ∧
      (Separable c.options.stem skss → RowsSeparable c.options.stem statements skss →
        ∃ r, c.batch statements = .ok r) := by
  obtain ⟨skss, hskss⟩ : ∃ skss, statements.mapM c.statementSketches = .ok skss := by
    refine Except.exists_mapM_eq_ok.mpr fun s hs => ?_
    obtain ⟨results, hresults⟩ := halone s hs
    obtain ⟨sks, hsks, -⟩ := realizes_alone hresults
    exact ⟨sks, hsks⟩
  refine ⟨skss, hskss, fun hsep hrows => ?_⟩
  have hstep (i : Nat) (s : Statement) (qs : Parameters) (hs : statements[i]? = some s) (hqs : Settled c skss i qs) :
      ∃ b qs', Emission.Gives (do
        modify fun ps => ps.beginStatement i
        c.emitStatement s) qs b qs' ∧ Settled c skss (i + 1) qs' := by
    obtain ⟨results, hresults⟩ := halone s (List.mem_of_getElem? hs)
    obtain ⟨a, ps', ha⟩ := gives_of_alone hresults
    obtain ⟨sks, hat, hsks⟩ := Except.getElem?_of_mapM hskss hs
    obtain ⟨b, qs', hb, hbeside⟩ := follows_emitStatement hsep hsks hat (fun u hu hbulk => by
      have := hrows i u (hu ▸ hs) hbulk
      rwa [hat] at this) hqs.beside ha
    refine ⟨b, qs', ?_, hbeside.settled⟩
    simp only [Emission.gives_bind, Emission.gives_modify]
    exact ⟨⟨⟩, _, rfl, hb⟩
  have hnew : Settled c skss 0 c.newParameters :=
    ⟨rfl, rfl, rfl, fun name p h => absurd h (Option.some_ne_none p).symm, List.forall_mem_nil _⟩
  obtain ⟨parts, qs, hparts⟩ : ∃ parts qs, (c.emitBatch statements).Gives c.newParameters parts qs := by
    unfold emitBatch
    refine Emission.exists_mapM_zipIdx (I := Settled c skss) (fun i s qs hs hqs => ?_) hnew
    rw [Nat.zero_add] at hqs ⊢
    exact hstep i s qs hs hqs
  unfold batch
  rw [List.isEmpty_eq_false_iff.mpr hne]
  exact ⟨_, Except.bind_eq_ok.mpr ⟨(parts, qs), hparts, rfl⟩⟩

end Batches

/-- A model with an entity in which one member is named as another one with the position of a statement behind it. -/
def tallies : Compiler where
  model := ⟨[
    { name := "Tally"
      table := "tally"
      fields :=
        [{ member := "Id", column := "id", type := .int32, native := .int32, isKey := true },
          { member := "n", column := "n", type := .int32, native := .int32 },
          { member := "n_1", column := "n_1", type := .int32, native := .int32 }] }]⟩

/-- Two updates that bind different values under one name. -/
def recounts : List Statement :=
  [.update { entity := "Tally", assignments := [.value "n" (.int 1)] },
    .update { entity := "Tally", assignments := [.value "n" (.int 2)] }]

/-- What an update of the member `n` is written for. -/
def recountSketch (v : Value) : List Sketch :=
  [[.text "UPDATE ", .text "`tally`", .text " SET ", .text "`n`", .text "=", .value (some "n") v .int32]]

/-- The second of the two updates binds its value under `n_1`. -/
theorem recounts_compile : (∀ s ∈ recounts, ∃ results, tallies.alone s = .ok results) ∧
    ∃ r, tallies.batch recounts = .ok r := by
  have halone : ∀ s ∈ recounts, ∃ results, tallies.alone s = .ok results :=
    List.forall_mem_cons.mpr ⟨⟨_, rfl⟩, List.forall_mem_singleton.mpr ⟨_, rfl⟩⟩
  refine ⟨halone, ?_⟩
  obtain ⟨skss, hskss, hbatch⟩ := Compiler.batch_of_alone (by simp [recounts]) halone
  have heq : recounts.mapM tallies.statementSketches = .ok [recountSketch (.int 1), recountSketch (.int 2)] := rfl
  cases hskss.symm.trans heq
  have hwanted {position : Nat} {name : String} {v : Value}
      (h : (name, v) ∈ wantedAt [recountSketch (.int 1), recountSketch (.int 2)] position) : name = "n" := by
    match position with
    | 0 | 1 => exact (Prod.mk.inj (List.mem_singleton.mp h)).1
    | _ + 2 => cases h
  refine hbatch ⟨fun {position name v} hname _ earlier _ w hw => ?_, fun {position name v} hname _ hgenerated => ?_⟩ ?_
  · have hlength := congrArg String.length (hwanted hw)
    rw [hwanted hname, positioned, String.length_append] at hlength
    exact absurd hlength (by rw [show ("n" ++ "_").length = 2 from rfl, show "n".length = 1 from rfl]; omega)
  · obtain ⟨number, h⟩ := hgenerated
    have hhead := congrArg (·.toList.head?) h
    have hstem : tallies.options.stem = "p" := rfl
    simp [positioned, hwanted hname, hstem] at hhead
  · rintro (_ | _ | position) u hu hbulk
    · cases hu
      cases hbulk
    · cases hu
      cases hbulk
    · cases hu

/-- Two updates that bind different values under one name, and one of them another value under this name with a position
behind it. -/
def clashes : List Statement :=
  [.update { entity := "Tally", assignments := [.value "n" (.int 1), .value "n_1" (.int 5)] },
    .update { entity := "Tally", assignments := [.value "n" (.int 2)] }]

/-- Both updates compile alone and do not compile together. -/
theorem clashes_fail : (∀ s ∈ clashes, ∃ results, tallies.alone s = .ok results) ∧
    (tallies.batch clashes).map Compiled.sql = .error (.error (.placeholderConflict "@n_1")) :=
  ⟨List.forall_mem_cons.mpr ⟨⟨_, rfl⟩, List.forall_mem_singleton.mpr ⟨_, rfl⟩⟩, rfl⟩

end LambdaSql
