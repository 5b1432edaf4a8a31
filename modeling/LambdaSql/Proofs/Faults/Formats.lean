import LambdaSql.Host.Format
import LambdaSql.Proofs.Plan.AtHand
import LambdaSql.Proofs.Plan.Result

/-!
# Faults of formats

A date has no time and a time has no date, so a format that asks for one is refused by a fault, not by an error; and so
is one that asks for more decimal places than a number may be written with. A text with places fills them in turn, and
the first one that cannot be filled decides how it ends.

## Main definitions

* `Calendar.Field.ofDate` - the fields that are those of dates.
* `Host.NoText` - a value has no text in a format, and asking for it is a fault.
* `Host.bracedFrom` - what stands between the braces of a text.

## Main results

* `Host.format_fault_iff` - the faults of a value in a format.
* `Host.composite_fault_iff` - the faults of a text with places.
-/

namespace LambdaSql

/-! ## Fields -/

namespace Calendar

/-- The fields that are those of dates; the others are those of times. -/
def Field.ofDate : Field → Bool
  | .year | .yearOfCentury | .monthName | .monthShort | .monthPadded | .month | .dayName | .dayShort | .dayPadded
  | .day => true
  | .hourPadded | .hour | .hourOfHalfPadded | .hourOfHalf | .minute | .second | .micros | .millis | .half => false

variable {date : Option Date} {time : Option Clock}

/-- A field cannot be rendered without the date or the time that it belongs to. -/
private theorem Field.render_eq_none {f : Field} :
    f.render date time = none ↔ if f.ofDate then date = none else time = none := by
  cases f <;> simp [Field.render, Field.ofDate]

/-- A piece cannot be rendered if it is a field that cannot. -/
private theorem Piece.render_eq_none {p : Piece} :
    p.render date time = none ↔ ∃ f, p = .field f ∧ if f.ofDate then date = none else time = none := by
  cases p with
  | field f => simp [Piece.render, Field.render_eq_none]
  | literal c => simp [Piece.render]

/-- A format needs what is not there when one of its fields does. -/
theorem render_eq_none {ps : List Piece} :
    render date time ps = none ↔ ∃ f, .field f ∈ ps ∧ if f.ofDate then date = none else time = none := by
  rw [render, Option.map_eq_none_iff]
  induction ps with
  | nil => simp
  | cons p rest ih =>
    have hmapM : (p :: rest).mapM (Piece.render date time) = none ↔
        p.render date time = none ∨ rest.mapM (Piece.render date time) = none := by
      rw [List.mapM_cons]
      cases p.render date time <;> cases rest.mapM (Piece.render date time) <;> simp
    rw [hmapM, ih, Piece.render_eq_none]
    constructor
    · rintro (⟨f, rfl, h⟩ | ⟨f, hf, h⟩)
      · exact ⟨f, List.mem_cons_self, h⟩
      · exact ⟨f, List.mem_cons_of_mem _ hf, h⟩
    · rintro ⟨f, hf, h⟩
      obtain hf | hf := List.mem_cons.mp hf
      · exact .inl ⟨f, hf.symm, h⟩
      · exact .inr ⟨f, hf, h⟩

end Calendar

namespace Evaluation

variable {α : Type} {f : Fault}

/-- What may be missing is no fault. -/
theorem ofOption_ne_fault (o : Option α) : ofOption o ≠ .error (.fault f) := Faultless.ofOption o f

/-- What may be missing is a result if it is there. -/
theorem ofOption_eq_ok {o : Option α} {a : α} : ofOption o = .ok a ↔ o = some a := by
  cases o with
  | none => exact ⟨nofun, nofun⟩
  | some b => exact ⟨fun h => by cases h; rfl, fun h => by cases h; rfl⟩

/-- The faults of what goes on from a value that may be missing. -/
theorem ofOption_bind_fault {β : Type} {o : Option α} {g : α → Evaluation β} :
    ofOption o >>= g = .error (.fault f) ↔ ∃ a, o = some a ∧ g a = .error (.fault f) := by
  rw [Except.bind_eq_error]
  simp only [ofOption_eq_ok, ofOption_ne_fault, false_or]

end Evaluation

namespace Host

open Calendar Evaluation

variable {f : Fault} {wanted : String} {args : List Value}

/-! ## Values in formats -/

/-- A value has no text in a format, and asking for it is a fault: the format asks a date for a field of times, a time
for a field of dates, or a number for too many decimal places. -/
inductive NoText : Value → String → Fault → Prop
  | date {d : Date} {wanted : String} {ps : List Piece} {field : Calendar.Field} :
    Piece.ofText? wanted = some ps → .field field ∈ ps → field.ofDate = false → NoText (.date d) wanted .fieldNotThere
  | time {t : Clock} {wanted : String} {ps : List Piece} {field : Calendar.Field} :
    Piece.ofText? wanted = some ps → .field field ∈ ps → field.ofDate = true → NoText (.time t) wanted .fieldNotThere
  | number {v : Value} {wanted : String} {places : Nat} {x : Float} :
    placesOf? wanted = some places → v.toFloat? = some x → maxPlaces < places → NoText v wanted .tooManyPlaces

/-- A date or a time cannot be written in a format with a field of the other. -/
private theorem formatTemporal_fault_iff {date : Option Date} {time : Option Clock} :
    formatTemporal date time wanted = .error (.fault f) ↔
      f = .fieldNotThere ∧ ∃ ps field, Piece.ofText? wanted = some ps ∧ .field field ∈ ps ∧
        if field.ofDate then date = none else time = none := by
  rw [formatTemporal, ofOption_bind_fault]
  constructor
  · rintro ⟨ps, hps, h⟩
    split at h
    · cases h
    · next hnone =>
      cases h
      obtain ⟨field, hmem, hlacks⟩ := render_eq_none.mp hnone
      exact ⟨rfl, ps, field, hps, hmem, hlacks⟩
  · rintro ⟨rfl, ps, field, hps, hmem, hlacks⟩
    refine ⟨ps, hps, ?_⟩
    rw [render_eq_none.mpr ⟨field, hmem, hlacks⟩]
    rfl

/-- A number cannot be written with too many decimal places. -/
private theorem formatNumber_fault_iff {v : Value} :
    formatNumber v wanted = .error (.fault f) ↔
      f = .tooManyPlaces ∧ ∃ places x, placesOf? wanted = some places ∧ v.toFloat? = some x ∧ maxPlaces < places := by
  simp only [formatNumber, ofOption_bind_fault]
  constructor
  · rintro ⟨places, hplaces, x, hx, h⟩
    split at h
    · next hlt =>
      cases h
      exact ⟨rfl, places, x, hplaces, hx, hlt⟩
    · cases h
  · rintro ⟨rfl, places, x, hplaces, hx, hlt⟩
    exact ⟨places, hplaces, x, hx, by rw [if_pos hlt]; rfl⟩

/-- What is no date and no time has no text only where too many decimal places are asked for. -/
theorem noText_iff_places {v : Value} (hdate : ∀ d, v ≠ .date d) (htime : ∀ t, v ≠ .time t) :
    NoText v wanted f ↔
      f = .tooManyPlaces ∧ ∃ places x, placesOf? wanted = some places ∧ v.toFloat? = some x ∧ maxPlaces < places := by
  constructor
  · intro h
    cases h with
    | date => exact absurd rfl (hdate _)
    | time => exact absurd rfl (htime _)
    | number hplaces hx hlt => exact ⟨rfl, _, _, hplaces, hx, hlt⟩
  · rintro ⟨rfl, places, x, hplaces, hx, hlt⟩
    exact .number hplaces hx hlt

/-- **The faults of a value in a format.**

**Proof sketch.** By the type of the value. A date lacks the fields of times and a time those of dates, a moment lacks
neither, and for numbers it is the decimal places that count. -/
theorem format_fault_iff {v : Value} : format v wanted = .error (.fault f) ↔ NoText v wanted f := by
  cases v with
  | date d =>
    rw [format, formatTemporal_fault_iff]
    constructor
    · rintro ⟨rfl, ps, field, hps, hmem, h⟩
      exact .date hps hmem (by simpa using h)
    · intro h
      cases h with
      | date hps hmem hfield => exact ⟨rfl, _, _, hps, hmem, by simp [hfield]⟩
      | number _ hx => cases hx
  | time t =>
    rw [format, formatTemporal_fault_iff]
    constructor
    · rintro ⟨rfl, ps, field, hps, hmem, h⟩
      exact .time hps hmem (by simpa using h)
    · intro h
      cases h with
      | time hps hmem hfield => exact ⟨rfl, _, _, hps, hmem, by simp [hfield]⟩
      | number _ hx => cases hx
  | moment m =>
    refine formatTemporal_fault_iff.trans (.trans ?_ (noText_iff_places (by simp) (by simp)).symm)
    simp [Value.toFloat?]
  | int | float | decimal => exact formatNumber_fault_iff.trans (noText_iff_places (by simp) (by simp)).symm
  | _ =>
    refine .trans ?_ (noText_iff_places (by simp) (by simp)).symm
    simp [format, unevaluable, Value.toFloat?]

/-! ## Texts with places -/

/-- What stands between the braces of a text from some point on, `place` being the part of an open place already read,
backwards. -/
def bracedFrom : Option (List Char) → List Char → List (List Char)
  | none, [] => []
  | some place, [] => [place.reverse]
  | some place, c :: cs =>
    if c = '\x7d' then place.reverse :: bracedFrom none cs else bracedFrom (some (c :: place)) cs
  | none, '\x7b' :: '\x7b' :: cs => bracedFrom none cs
  | none, '\x7d' :: '\x7d' :: cs => bracedFrom none cs
  | none, '\x7b' :: cs => bracedFrom (some []) cs
  | none, _ :: cs => bracedFrom none cs

/-- What stands between the braces of a text. -/
def braced (wanted : String) : List (List Char) := bracedFrom none wanted.toList

/-- A place cannot be filled, and asking for it is a fault: it has a format in which the argument has no text. -/
theorem fill_fault_iff {place : List Char} :
    fill args place = .error (.fault f) ↔
      ∃ number format i v, Text.splitOnce ':' place = some (number, format) ∧
        Number.parseNat? (Text.trim number) = some i ∧ args[i]? = some v ∧ NoText v (String.ofList format) f := by
  unfold fill
  cases hsplit : Text.splitOnce ':' place with
  | none =>
    simp only [ofOption_bind_fault, reduceCtorEq, false_and, exists_false, iff_false, not_exists, not_and]
    exact fun _ _ _ _ => nofun
  | some parts =>
    obtain ⟨number, format⟩ := parts
    simp only [ofOption_bind_fault, format_fault_iff]
    constructor
    · rintro ⟨i, hi, v, hv, h⟩
      exact ⟨number, format, i, v, rfl, hi, hv, h⟩
    · rintro ⟨_, _, i, v, ⟨⟩, hi, hv, h⟩
      exact ⟨i, hi, v, hv, h⟩

/-- How a text with places ends is how filling its places in turn does.

**Proof sketch.** By the recursion of filling: the places are filled from left to right, and so are they when they
have been cut out first. -/
theorem compositeFrom_eq_error {h : Halt} (place : Option (List Char)) (cs : List Char) :
    compositeFrom args place cs = .error h ↔ (bracedFrom place cs).mapM (fill args) = .error h := by
  induction place, cs using compositeFrom.induct with
  | case1 => exact ⟨nofun, nofun⟩
  | case2 place =>
    simp only [compositeFrom, bracedFrom, List.mapM_cons, List.mapM_nil, pure_bind, Except.map_eq_error]
  | case3 place cs ih =>
    rw [compositeFrom, bracedFrom, if_pos rfl, if_pos rfl, List.mapM_cons, Except.bind_eq_error, Except.bind_eq_error]
    simp only [Except.map_eq_error, ih]
  | case4 place c cs hc ih =>
    rw [compositeFrom, bracedFrom, if_neg hc, if_neg hc]
    exact ih
  | case5 cs ih | case6 cs ih =>
    rw [compositeFrom, bracedFrom, Except.map_eq_error]
    exact ih
  | case7 cs hopen ih =>
    rw [compositeFrom, bracedFrom]
    · exact ih
    · exact hopen
    · exact hopen
  | case8 c cs hopen hclose hplace ih =>
    rw [compositeFrom, bracedFrom, Except.map_eq_error]
    · exact ih
    all_goals assumption

/-- **The faults of a text with places**: the first place that cannot be filled asks for a text that a value does not
have. -/
theorem composite_fault_iff :
    composite wanted args = .error (.fault f) ↔
      ∃ before place after, braced wanted = before ++ place :: after ∧ (∀ p ∈ before, ∃ r, fill args p = .ok r) ∧
        fill args place = .error (.fault f) := by
  rw [composite, compositeFrom_eq_error, Except.mapM_eq_error, braced]

end Host

end LambdaSql
