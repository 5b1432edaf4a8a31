import LambdaSql.Host.Call
import LambdaSql.Proofs.Faults.Formats

/-!
# Faults of calls

Methods look at what they are called on and at their arguments, and have no value where these do not fit. Only four of
them come upon faults: a value as text in a format, a text with places, a text that is filled up, and a date that is
moved by days.

## Main definitions

* `Host.NoAnswerOn`, `Host.NoAnswerOf` - calls on values, and of types, that have no answer.

## Main results

* `Host.callOn_fault_iff`, `Host.callOf_fault_iff` - the faults of calls.
-/

namespace LambdaSql

/-- Integers are read as integers. -/
private theorem Value.toInt?_eq_some {v : Value} {n : Int64} : v.toInt? = some n ↔ v = .int n := by
  cases v <;> simp [toInt?]

/-- Texts are read as texts. -/
private theorem Value.toText?_eq_some {v : Value} {s : String} : v.toText? = some s ↔ v = .string s := by
  cases v <;> simp [toText?]

/-- There is no duration of more nanoseconds than the longest one has. -/
theorem Calendar.Duration.of?_eq_none {nanos : Int} : of? nanos = none ↔ maxNanos < nanos.natAbs := by
  unfold of?
  split
  · simp only [reduceCtorEq, false_iff]
    omega
  · simp only [true_iff]
    omega

namespace Host

open Calendar Evaluation

variable {f : Fault} {v : Value} {type method : String} {args : List Value}

/-! ## Calls on values -/

/-- A filling is a character, and how often it is needed to reach the width. -/
theorem filling?_eq_some {cs : List Char} {width : Value} {rest : List Value} {count : Nat} {fill : Char} :
    filling? cs width rest = some (count, fill) ↔
      rest.length ≤ 1 ∧ filler? rest = some fill ∧ ∃ (n : Int64) (w : Nat), width = .int n ∧ n.toInt = w ∧
        count = w - cs.length := by
  unfold filling?
  split
  · next hlong => exact iff_of_false nofun fun ⟨hle, _⟩ => absurd hle (by omega)
  · next hshort =>
    constructor
    · intro h
      obtain ⟨w, hw, h⟩ := Option.bind_eq_some_iff.mp h
      obtain ⟨fill', hfill, h⟩ := Option.bind_eq_some_iff.mp h
      obtain ⟨hcount, rfl⟩ := Prod.mk.inj (Option.some.inj h)
      obtain ⟨n, rfl, hn⟩ := natural?_eq_some.mp hw
      exact ⟨by omega, hfill, n, w, rfl, hn, hcount.symm⟩
    · rintro ⟨-, hfill, n, w, rfl, hn, rfl⟩
      change (natural? (.int n) >>= fun i => filler? rest >>= fun c => some (i - cs.length, c)) = _
      rw [natural?_eq_some.mpr ⟨n, rfl, hn⟩, hfill]
      rfl

/-- A text cannot be filled up just where what it lacks has more bytes than can be addressed. -/
theorem padding_fault_iff {cs : List Char} {width : Value} {rest : List Value} :
    padding cs width rest = .error (.fault f) ↔
      f = .paddingBeyondMemory ∧ ∃ count fill, filling? cs width rest = some (count, fill) ∧
        addressable < count * fill.utf8Size := by
  rw [padding, ofOption_bind_fault]
  constructor
  · rintro ⟨⟨count, fill⟩, hfilling, h⟩
    dsimp only at h
    split at h
    · next hlt =>
      cases h
      exact ⟨rfl, count, fill, hfilling, hlt⟩
    · cases h
  · rintro ⟨rfl, count, fill, hfilling, hlt⟩
    refine ⟨(count, fill), hfilling, ?_⟩
    dsimp only
    rw [if_pos hlt]
    rfl

/-- A text that is filled up begins or ends with as many characters as it lacks. -/
theorem padding_eq_ok {cs ds : List Char} {width : Value} {rest : List Value}
    (h : padding cs width rest = .ok ds) :
    ∃ count fill, filling? cs width rest = some (count, fill) ∧ ds = List.replicate count fill := by
  obtain ⟨⟨count, fill⟩, hfilling, h⟩ := Except.bind_eq_ok.mp h
  dsimp only at h
  split at h
  · cases h
  · exact ⟨count, fill, ofOption_eq_ok.mp hfilling, (Except.ok.inj h).symm⟩

/-- Of the methods of texts only those that fill texts up come upon faults. -/
theorem callOnText_fault_iff {s : String} :
    callOnText s.toList method args = .error (.fault f) ↔
      (method = "PadLeft" ∨ method = "PadRight") ∧ ∃ width rest, args = width :: rest ∧
        padding s.toList width rest = .error (.fault f) := by
  unfold callOnText
  split
  case h_1 width rest | h_2 width rest =>
    refine Except.map_eq_error.trans ⟨fun h => ⟨by simp, width, rest, rfl, h⟩, ?_⟩
    rintro ⟨-, _, _, ⟨⟩, h⟩
    exact h
  case h_3 hleft hright =>
    refine iff_of_false (ofOption_ne_fault _) ?_
    rintro ⟨rfl | rfl, _, _, rfl, -⟩
    · exact hleft _ _ rfl rfl
    · exact hright _ _ rfl rfl

/-- A call on a value has no answer: a text in a format that the value has no text in, a date moved by more days than
any duration has, or a text of some length filled up to a width with more bytes than can be addressed. -/
inductive NoAnswerOn : Value → String → List Value → Fault → Prop
  | format {v : Value} {wanted : String} {f : Fault} : NoText v wanted f → NoAnswerOn v "ToString" [.string wanted] f
  | days {d : Date} {n : Int64} :
    maxNanos < (n.toInt * Duration.day).natAbs → NoAnswerOn (.date d) "AddDays" [.int n] .daysBeyondDuration
  | padding {s method : String} {width : Int64} {w : Nat} {rest : List Value} {fill : Char} :
    method = "PadLeft" ∨ method = "PadRight" → width.toInt = w → rest.length ≤ 1 → filler? rest = some fill →
    addressable < (w - s.toList.length) * fill.utf8Size →
    NoAnswerOn (.string s) method (.int width :: rest) .paddingBeyondMemory

/-- A call on a value has no answer in three cases. -/
private theorem noAnswerOn_iff : NoAnswerOn v method args f ↔
    (method = "ToString" ∧ ∃ wanted, args = [.string wanted] ∧ NoText v wanted f) ∨
      (method = "AddDays" ∧ f = .daysBeyondDuration ∧ ∃ d n, v = .date d ∧ args = [.int n] ∧
        maxNanos < (n.toInt * Duration.day).natAbs) ∨
      ((method = "PadLeft" ∨ method = "PadRight") ∧ ∃ s width rest, v = .string s ∧ args = width :: rest ∧
        padding s.toList width rest = .error (.fault f)) := by
  constructor
  · intro h
    cases h with
    | format h => exact .inl ⟨rfl, _, rfl, h⟩
    | days h => exact .inr (.inl ⟨rfl, rfl, _, _, rfl, rfl, h⟩)
    | padding hmethod hw hrest hfill hlt =>
      exact .inr (.inr ⟨hmethod, _, _, _, rfl, rfl, padding_fault_iff.mpr
        ⟨rfl, _, _, filling?_eq_some.mpr ⟨hrest, hfill, _, _, rfl, hw, rfl⟩, hlt⟩⟩)
  · rintro (⟨rfl, wanted, rfl, h⟩ | ⟨rfl, rfl, d, n, rfl, rfl, h⟩ | ⟨hmethod, s, width, rest, rfl, rfl, h⟩)
    · exact .format h
    · exact .days h
    · obtain ⟨rfl, count, fill, hfilling, hlt⟩ := padding_fault_iff.mp h
      obtain ⟨hrest, hfill, n, w, rfl, hw, rfl⟩ := filling?_eq_some.mp hfilling
      exact .padding hmethod hw hrest hfill hlt

/-- A date is moved by years and months as far as there are dates, and only days may be too many. -/
theorem callOnDate_fault_iff {d : Date} {arg : Value} :
    callOnDate d method arg = .error (.fault f) ↔
      f = .daysBeyondDuration ∧ method = "AddDays" ∧ ∃ n, arg = .int n ∧
        maxNanos < (n.toInt * Duration.day).natAbs := by
  unfold callOnDate
  split
  case h_3 =>
    rw [ofOption_bind_fault]
    constructor
    · rintro ⟨n, hn, h⟩
      split at h
      · exact absurd h ((Faultless.ofOption _).bind (fun _ _ => .ok _) f)
      · next hnone =>
        cases h
        exact ⟨rfl, rfl, n, Value.toInt?_eq_some.mp hn, Duration.of?_eq_none.mp hnone⟩
    · rintro ⟨rfl, -, n, rfl, hlt⟩
      refine ⟨n, rfl, ?_⟩
      rw [Duration.of?_eq_none.mpr hlt]
      rfl
  case h_1 | h_2 =>
    refine iff_of_false ?_ (by simp)
    exact (Faultless.ofOption _).bind (fun _ _ => (Faultless.ofOption _).bind fun _ _ => .ok _) f
  case h_4 _ _ hdays => exact iff_of_false nofun fun h => hdays h.2.1

/-- Beside the methods of texts and dates, those that depend on the type of a value come upon no fault.

**Proof sketch.** By the type of the value. Times shifted by numbers that are out of range have no value rather than a
fault, and so have the other methods. -/
theorem callOnTyped_fault_iff : callOnTyped v method args = .error (.fault f) ↔
    (∃ s, v = .string s ∧ callOnText s.toList method args = .error (.fault f)) ∨
      ∃ d arg, v = .date d ∧ args = [arg] ∧ callOnDate d method arg = .error (.fault f) := by
  unfold callOnTyped
  split
  case h_1 s => simp
  case h_4 d arg =>
    refine ⟨fun h => .inr ⟨d, arg, rfl, rfl, h⟩, ?_⟩
    rintro (⟨_, ⟨⟩, -⟩ | ⟨_, _, ⟨⟩, ⟨⟩, h⟩)
    exact h
  case h_7 htext _ _ hdate _ _ =>
    refine iff_of_false nofun ?_
    rintro (⟨s, rfl, -⟩ | ⟨d, arg, hv, hargs, -⟩)
    · exact htext s rfl
    · exact hdate d arg hv hargs
  case h_2 =>
    refine iff_of_false ?_ (by simp)
    split <;> nofun
  case h_6 =>
    refine iff_of_false ?_ (by simp)
    split
    · exact ofOption_ne_fault _
    · split
      · exact ofOption_ne_fault _
      · nofun
  all_goals exact iff_of_false (ofOption_ne_fault _) (by simp)

/-- **The faults of calls on values.**

**Proof sketch.** By the method. Formatting comes upon the faults of the format; comparing and looking for members
upon none; and the methods of types upon those of texts and dates. -/
theorem callOn_fault_iff : callOn v method args = .error (.fault f) ↔ NoAnswerOn v method args f := by
  rw [noAnswerOn_iff]
  unfold callOn
  split
  case h_2 arg =>
    rw [ofOption_bind_fault]
    simp only [Except.map_eq_error, format_fault_iff, Value.toText?_eq_some]
    simp
  case h_4 => exact iff_of_false (ofOption_ne_fault _) (by simp)
  case h_6 _ hformat _ _ _ =>
    rw [callOnTyped_fault_iff]
    simp only [callOnDate_fault_iff, callOnText_fault_iff]
    constructor
    · rintro (⟨s, rfl, hmethod, width, rest, rfl, h⟩ | ⟨d, _, rfl, rfl, rfl, rfl, n, rfl, h⟩)
      · exact .inr (.inr ⟨hmethod, s, width, rest, rfl, rfl, h⟩)
      · exact .inr (.inl ⟨rfl, rfl, d, n, rfl, rfl, h⟩)
    · rintro (⟨hmethod, wanted, hargs, -⟩ | ⟨rfl, rfl, d, n, rfl, rfl, h⟩ | ⟨hmethod, s, width, rest, rfl, rfl, h⟩)
      · exact absurd hargs (hformat _ hmethod)
      · exact .inr ⟨d, _, rfl, rfl, rfl, rfl, n, rfl, h⟩
      · exact .inl ⟨s, rfl, hmethod, width, rest, rfl, h⟩
  all_goals exact iff_of_false nofun (by simp)

/-! ## Calls of types -/

/-- A call of a type has no answer: a text whose first place that cannot be filled has a format in which its argument
has no text. -/
inductive NoAnswerOf : String → String → List Value → Fault → Prop
  | composite {type wanted : String} {args : List Value} {before after : List (List Char)} {place : List Char}
    {number format : List Char} {i : Nat} {v : Value} {f : Fault} :
    type = "String" ∨ type = "string" → braced wanted = before ++ place :: after →
    (∀ p ∈ before, ∃ r, fill args p = .ok r) → Text.splitOnce ':' place = some (number, format) →
    Number.parseNat? (Text.trim number) = some i → args[i]? = some v → NoText v (String.ofList format) f →
    NoAnswerOf type "Format" (.string wanted :: args) f

/-- A call of a type has no answer if it fills a format whose pieces have none. -/
private theorem noAnswerOf_iff : NoAnswerOf type method args f ↔
    (type = "String" ∨ type = "string") ∧ method = "Format" ∧ ∃ wanted rest, args = .string wanted :: rest ∧
      composite wanted rest = .error (.fault f) := by
  simp only [composite_fault_iff, fill_fault_iff]
  constructor
  · intro h
    cases h with
    | composite htype hplaces hbefore hplace hnumber harg h =>
      exact ⟨htype, rfl, _, _, rfl, _, _, _, hplaces, hbefore, _, _, _, _, hplace, hnumber, harg, h⟩
  · rintro ⟨htype, rfl, wanted, rest, rfl, _, _, _, hplaces, hbefore, _, _, _, _, hplace, hnumber, harg, h⟩
    exact .composite htype hplaces hbefore hplace hnumber harg h

/-- A call of the text type comes upon the faults of filling a format. -/
private theorem callOfText_fault_iff : callOfText method args = .error (.fault f) ↔
    method = "Format" ∧ ∃ wanted rest, args = .string wanted :: rest ∧ composite wanted rest = .error (.fault f) := by
  unfold callOfText
  split
  case h_4 =>
    rw [ofOption_bind_fault]
    simp only [Except.map_eq_error, Value.toText?_eq_some]
    simp
  case h_3 => exact iff_of_false nofun (by simp)
  case h_6 hformat _ => exact iff_of_false nofun fun ⟨hmethod, _, _, hargs, _⟩ => hformat _ _ hmethod hargs
  all_goals exact iff_of_false (ofOption_ne_fault _) (by simp)

/-- A call of a type comes upon a fault if it has no answer. -/
private theorem callOfTyped_fault_iff :
    callOfTyped type method args = .error (.fault f) ↔ NoAnswerOf type method args f := by
  rw [noAnswerOf_iff, ← callOfText_fault_iff]
  unfold callOfTyped
  split
  case h_1 | h_2 => simp
  case h_7 | h_8 =>
    refine iff_of_false ?_ (by simp)
    split <;> nofun
  case h_9 htext htext' _ _ _ _ _ _ => exact iff_of_false nofun fun ⟨htype, _⟩ => htype.elim htext htext'
  all_goals exact iff_of_false (ofOption_ne_fault _) (by simp)

/-- **The faults of calls of types.** -/
theorem callOf_fault_iff : callOf type method args = .error (.fault f) ↔ NoAnswerOf type method args f := by
  unfold callOf
  split
  · rw [noAnswerOf_iff]
    exact iff_of_false nofun (by simp)
  · exact callOfTyped_fault_iff

end Host

end LambdaSql
