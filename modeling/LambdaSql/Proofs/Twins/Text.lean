import LambdaSql.Proofs.Binding.Statements
import LambdaSql.Proofs.Naming.Resolution
import LambdaSql.Proofs.Twins.Queries
import LambdaSql.Proofs.Twins.Writing

/-!
# Texts of twins

Two queries that differ in captured values only have one text: their plans differ in bound values only, and bound
values are not part of a text. Formats are the exception. A format that is at hand is converted and written into
the text, whether it is a constant or a captured value, so twins are required to have the same formats.

## Main results

* `Query.Twins.planned` - twins have plans that are the same but for bound values.
* `Compiler.sql_eq_of_twins` - twins have one text.
-/

namespace LambdaSql

open Planning

variable {c : Compiler} {q q' : Query}

/-- Twins have plans that are the same but for bound values, if both have plans. -/
theorem Query.Twins.planned (h : Query.Twins (Expr.Separate c) q q') {sel sel' : Select} {ctes ctes' : List CtePlan}
    (hplan : (planQuery q).run c = .ok (sel, ctes)) (hplan' : (planQuery q').run c = .ok (sel', ctes')) :
    blankSelect sel = blankSelect sel' ∧ ctes.map CtePlan.blank = ctes'.map CtePlan.blank := by
  obtain ⟨p, hgives, rfl⟩ := gives_of_run hplan
  obtain ⟨p', hgives', rfl⟩ := gives_of_run hplan'
  have hmeets := h.alike (s := { compiler := c }) (p := {}) rfl rfl rfl
  rw [hgives, hgives'] at hmeets
  cases hmeets with
  | results hsel hp => exact ⟨hsel, (Progress.blank_eq_iff.mp hp).2.1⟩

/-- **Captured values reach the database as parameters only.** Two queries that differ in captured values of the
same types have one text, if no captured value lies within a larger expression that is evaluated on the host and
formats at hand are the same.

**Proof sketch.** Both queries are planned in step, by induction on what they are made of, into plans that are the
same once the bound values are blanked: wherever planning looks at a value, there is the same one on both sides.
Writing never looks at a bound value, so the texts are those of the blanked plans. -/
theorem Compiler.sql_eq_of_twins {out out' : Compiled} (htwins : Query.Twins (Expr.Separate c) q q')
    (h : c.select q = .ok out) (h' : c.select q' = .ok out') : out.sql = out'.sql := by
  obtain ⟨sel, ctes, hplan, -, hwritten⟩ := gives_select h
  obtain ⟨sel', ctes', hplan', -, hwritten'⟩ := gives_select h'
  obtain ⟨hsel, hctes⟩ := htwins.planned hplan hplan'
  have mirrors : ∀ (sel : Select) (ctes : List CtePlan), Writing.Mirrors
      (do return (← writeCtes c.dialect ctes) ++ (← writeSelect c.dialect sel))
      (do return (← writeCtes c.dialect (ctes.map CtePlan.blank)) ++ (← writeSelect c.dialect (blankSelect sel))) :=
    fun sel ctes => (mirrors_writeCtes ctes).bind fun _ => (mirrors_writeSelect sel).map _
  have hmirrors := mirrors sel ctes
  rw [hsel, hctes] at hmirrors
  exact congrArg Phrase.text (hmirrors.unique (mirrors sel' ctes') rfl hwritten hwritten')

/-- The customers of at least an age. -/
def customersFrom (age : Int64) : Query :=
  (Query.ofSource (.entity "Customer")).filter (.lambda ["c"]
    (.binary .ge (.member (.param "c") "Age") (.captured "age" (.int age))))

/-- The customers from one age on and those from another are twins. -/
private theorem customersFrom_twins {age age' : Int64} (h : (Value.int age).hostType = (Value.int age').hostType) :
    Query.Twins (Expr.Separate shop) (customersFrom age) (customersFrom age') := by
  have member : Expr.Separate shop (.member (.param "c") "Age") (.member (.param "c") "Age") :=
    { value := fun _ => .inl rfl, collection := nofun, formats := nofun }
  have test : Expr.Separate shop (.binary .ge (.member (.param "c") "Age") (.captured "age" (.int age)))
      (.binary .ge (.member (.param "c") "Age") (.captured "age" (.int age'))) :=
    { value := fun _ => .inr ⟨rfl, rfl⟩, collection := nofun, formats := nofun }
  exact .mk (.entity _) .nil (.cons (.mk (.binary test (.member member (.param _))
    (.captured _ (.inr ⟨rfl, rfl, h⟩)))) .nil) .none .nil .nil .none

/-- Two captured ages give one text. -/
theorem customersFrom_sql : ∃ out out', shop.select (customersFrom 30) = .ok out ∧
    shop.select (customersFrom 41) = .ok out' ∧ out.sql = out'.sql ∧
    out.sql = "SELECT a.`id` AS `Id`,a.`age` AS `Age` FROM `customer` a WHERE a.`age`>=@p0" := by
  have hresult : (shop.select (customersFrom 30)).map (·.sql) =
      .ok "SELECT a.`id` AS `Id`,a.`age` AS `Age` FROM `customer` a WHERE a.`age`>=@p0" := by rfl
  obtain ⟨out, h⟩ : ∃ out, shop.select (customersFrom 30) = .ok out := ⟨_, rfl⟩
  obtain ⟨out', h'⟩ : ∃ out, shop.select (customersFrom 41) = .ok out := ⟨_, rfl⟩
  rw [h] at hresult
  have htwins : Query.Twins (Expr.Separate shop) (customersFrom 30) (customersFrom 41) :=
    customersFrom_twins (by decide)
  exact ⟨out, out', h, h', Compiler.sql_eq_of_twins htwins h h', Except.ok.inj hresult⟩

end LambdaSql
