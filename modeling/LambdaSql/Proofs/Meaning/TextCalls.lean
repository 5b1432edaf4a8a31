import LambdaSql.Proofs.Faults.Calls
import LambdaSql.Proofs.Meaning.Textual

/-!
# Calls on texts

Methods of texts that the host evaluates and that are functions of the database, too. The two may differ: the host trims
blanks where the database trims spaces, leaves a text that is too wide where the database cuts it, and finds the empty
text around every character where the database replaces nothing. Otherwise they agree.

## Main definitions

* `TextCall` - a call on a text, with the values of its arguments.
* `TextCall.Computes` - what the host computes.
* `TextCall.Agrees` - the texts on which host and database agree.

## Main results

* `TextCall.computes_of_callOnText` - methods of texts.
* `TextCall.Computes.call_eq_iff` - a function of the database has the value of the method on just those texts on which
  they agree.
-/

namespace LambdaSql

/-- Whether a value is a text or a whole number. -/
def Value.IsTextOrInt : Value → Prop
  | .string _ | .int _ => True
  | _ => False

/-- A call on a text that becomes a function of the database. -/
inductive TextCall where
  | trim
  | trimStart
  | trimEnd
  | substring (start : Int64)
  | substringLength (start length : Int64)
  | indexOf (wanted : String)
  | replace (old new : String)
  | padLeft (width : Int64) (fill : Char)
  | padRight (width : Int64) (fill : Char)

namespace TextCall

/-- The name of the method. -/
def method : TextCall → String
  | trim => "Trim"
  | trimStart => "TrimStart"
  | trimEnd => "TrimEnd"
  | substring _ | substringLength .. => "Substring"
  | indexOf _ => "IndexOf"
  | replace .. => "Replace"
  | padLeft .. => "PadLeft"
  | padRight .. => "PadRight"

/-- The values of the arguments. -/
def args : TextCall → List Value
  | trim | trimStart | trimEnd => []
  | substring start => [.int start]
  | substringLength start length => [.int start, .int length]
  | indexOf wanted => [.string wanted]
  | replace old new => [.string old, .string new]
  | padLeft width fill | padRight width fill => [.int width, .string (String.singleton fill)]

/-- The function of the database. -/
def function : TextCall → SqlFunction
  | trim => .trim
  | trimStart => .trimLeft
  | trimEnd => .trimRight
  | substring _ => .substring
  | substringLength .. => .substringLength
  | indexOf _ => .indexOf
  | replace .. => .replace
  | padLeft .. => .padLeft
  | padRight .. => .padRight

/-- The arguments of these calls are texts and integers. -/
theorem isTextOrInt_of_mem_args {k : TextCall} : ∀ v ∈ k.args, v.IsTextOrInt := by
  cases k <;> simp [args, Value.IsTextOrInt]

/-! ## The host -/

/-- A position that is a natural number. -/
theorem natural?_int_eq_some {n : Int64} {i : Nat} : Host.natural? (.int n) = some i ↔ n.toInt = i := by
  simp [Host.natural?_eq_some]

/-- A text of one character fills with this character. -/
private theorem filler?_singleton (fill : Char) : Host.filler? [.string (String.singleton fill)] = some fill := by
  simp [Host.filler?]

/-- What the host computes from a text. Nothing is computed with positions and widths that are negative. -/
def Computes : TextCall → List Char → Value → Prop
  | trim, cs, v => v = .string (String.ofList ((cs.dropWhile Text.isBlank).rdropWhile Text.isBlank))
  | trimStart, cs, v => v = .string (String.ofList (cs.dropWhile Text.isBlank))
  | trimEnd, cs, v => v = .string (String.ofList (cs.rdropWhile Text.isBlank))
  | substring start, cs, v => ∃ i : Nat, start.toInt = i ∧ v = .string (String.ofList (cs.drop i))
  | substringLength start length, cs, v =>
    ∃ i n : Nat, start.toInt = i ∧ length.toInt = n ∧ v = .string (String.ofList ((cs.drop i).take n))
  | indexOf wanted, cs, v =>
    (∃ (k : Nat) (n : Int64), Text.FirstAt wanted.toList cs k ∧ n.toInt = k ∧ v = .int n) ∨
      (∀ k, ¬ wanted.toList <+: cs.drop k) ∧ v = .int (-1)
  | replace old new, cs, v => v = .string (String.ofList (Text.replace old.toList new.toList cs))
  | padLeft width fill, cs, v =>
    ∃ w : Nat, width.toInt = w ∧ v = .string (String.ofList (List.replicate (w - cs.length) fill ++ cs))
  | padRight width fill, cs, v =>
    ∃ w : Nat, width.toInt = w ∧ v = .string (String.ofList (cs ++ List.replicate (w - cs.length) fill))

/-- What evaluating a call on a text returns is what the call is said to compute.

**Proof sketch.** By the call. Positions and widths are read as natural numbers, so that a negative one has no value,
and a position that is found has to be in range. -/
theorem computes_of_callOnText {k : TextCall} {cs : List Char} {v : Value}
    (hv : Host.callOnText cs k.method k.args = .ok v) : k.Computes cs v := by
  cases k with
  | trim | trimStart | trimEnd | replace _ _ => exact (Except.ok.inj hv).symm
  | substring start =>
    obtain ⟨i, hi, hv⟩ := Option.bind_eq_some_iff.mp (Evaluation.ofOption_eq_ok.mp hv)
    exact ⟨i, natural?_int_eq_some.mp hi, (Option.some.inj hv).symm⟩
  | substringLength start length =>
    obtain ⟨i, hi, hv⟩ := Option.bind_eq_some_iff.mp (Evaluation.ofOption_eq_ok.mp hv)
    obtain ⟨n, hn, hv⟩ := Option.bind_eq_some_iff.mp hv
    exact ⟨i, n, natural?_int_eq_some.mp hi, natural?_int_eq_some.mp hn, (Option.some.inj hv).symm⟩
  | indexOf wanted =>
    replace hv := Evaluation.ofOption_eq_ok.mp hv
    simp only [method, args, Host.callOnText?] at hv
    cases hfind : Text.find? wanted.toList cs with
    | some k =>
      rw [hfind] at hv
      obtain ⟨n, hn, rfl⟩ := Option.map_eq_some_iff.mp hv
      exact .inl ⟨k, n, Text.find?_eq_some_iff.mp hfind, Checked.ofInt?_eq_some_iff.mp hn, rfl⟩
    | none =>
      rw [hfind] at hv
      exact .inr ⟨Text.find?_eq_none_iff.mp hfind, (Option.some.inj hv).symm⟩
  | padLeft width fill | padRight width fill =>
    obtain ⟨ds, hds, hv⟩ := Except.bind_eq_ok.mp hv
    obtain ⟨count, c, hfilling, rfl⟩ := Host.padding_eq_ok hds
    obtain ⟨-, hfill, _, w, ⟨⟩, hw, rfl⟩ := Host.filling?_eq_some.mp hfilling
    obtain rfl := Option.some.inj ((filler?_singleton fill).symm.trans hfill)
    exact ⟨w, hw, (Except.ok.inj hv).symm⟩

/-- A call on a text returns a text, a truth value or a whole number. -/
theorem Computes.isTextOrInt {k : TextCall} {cs : List Char} {v : Value} (h : k.Computes cs v) : v.IsTextOrInt := by
  cases k with
  | trim | trimStart | trimEnd | replace _ _ =>
    obtain rfl := h
    trivial
  | substring _ | padLeft _ _ | padRight _ _ =>
    obtain ⟨_, -, rfl⟩ := h
    trivial
  | substringLength _ _ =>
    obtain ⟨_, _, -, -, rfl⟩ := h
    trivial
  | indexOf _ => obtain ⟨_, _, -, -, rfl⟩ | ⟨-, rfl⟩ := h <;> trivial

/-! ## The database -/

/-- The texts on which host and database agree: those whose outer blanks are spaces, at the ends that are trimmed, those
that are not wider than they are to become, and with an empty text to replace those to which nothing is added. -/
def Agrees : TextCall → List Char → Prop
  | trim, cs => (∀ c ∈ cs.takeWhile Text.isBlank, c = ' ') ∧ ∀ c ∈ cs.rtakeWhile Text.isBlank, c = ' '
  | trimStart, cs => ∀ c ∈ cs.takeWhile Text.isBlank, c = ' '
  | trimEnd, cs => ∀ c ∈ cs.rtakeWhile Text.isBlank, c = ' '
  | replace old new, _ => old = "" → new = ""
  | padLeft width _, cs | padRight width _, cs => (cs.length : Int) ≤ width.toInt
  | _, _ => True

variable {V : Type} {I : Interpretation V} {text : List Char → V}

/-- The values of the arguments of the function: positions are counted from one. -/
def sqlArgs (I : Interpretation V) : TextCall → List (Option V)
  | substring start => [some (I.number (start.toInt + 1))]
  | substringLength start length => [some (I.number (start.toInt + 1)), I.value (.int length)]
  | k => k.args.map I.value

/-- All characters are spaces by the test if they are by equality. -/
private theorem forall_isSpace_iff {l : List Char} : (∀ c ∈ l, Text.isSpace c = true) ↔ ∀ c ∈ l, c = ' ' := by
  simp [Text.isSpace]

/-- **A function of the database has the value of the method on just those texts on which they agree.**

**Proof sketch.** By the call. Trimming differs where there are other blanks than spaces, replacing where the empty
text is replaced, and filling where the text is too long already. -/
theorem Computes.call_eq_iff (hI : I.ReadsTexts text) {k : TextCall} {subject : String} {v : Value}
    (h : k.Computes subject.toList v) :
    I.call k.function (I.value (.string subject) :: k.sqlArgs I) = I.value v ↔ k.Agrees subject.toList := by
  rw [hI.value_string]
  cases k with
  | trim =>
    obtain rfl := h
    change I.call .trim [_] = _ ↔ _
    rw [hI.trim, hI.eq_value_iff, Text.outer_eq_outer_iff Text.isBlank_of_isSpace]
    exact and_congr forall_isSpace_iff forall_isSpace_iff
  | trimStart =>
    obtain rfl := h
    change I.call .trimLeft [_] = _ ↔ _
    rw [hI.trimLeft, hI.eq_value_iff, Text.dropWhile_eq_dropWhile_iff Text.isBlank_of_isSpace]
    exact forall_isSpace_iff
  | trimEnd =>
    obtain rfl := h
    change I.call .trimRight [_] = _ ↔ _
    rw [hI.trimRight, hI.eq_value_iff, Text.rdropWhile_eq_rdropWhile_iff Text.isBlank_of_isSpace]
    exact forall_isSpace_iff
  | substring start =>
    obtain ⟨i, hi, rfl⟩ := h
    change I.call .substring [_, some (I.number (start.toInt + 1))] = _ ↔ True
    rw [hi, hI.substring, hI.eq_value_iff]
    exact iff_true_intro rfl
  | substringLength start length =>
    obtain ⟨i, n, hi, hn, rfl⟩ := h
    change I.call .substringLength [_, some (I.number (start.toInt + 1)), I.value (.int length)] = _ ↔ True
    rw [hI.value_int, hi, hn, hI.substringLength, hI.eq_value_iff]
    exact iff_true_intro rfl
  | indexOf wanted =>
    refine iff_true_intro ?_
    change I.call .indexOf [_, I.value (.string wanted)] = _
    rw [hI.value_string]
    obtain ⟨i, n, hfirst, hn, rfl⟩ | ⟨habsent, rfl⟩ := h
    · rw [hI.indexOf_first hfirst, hI.value_int, hn]
    · rw [hI.indexOf_absent habsent, hI.value_int]
      rfl
  | replace old new =>
    obtain rfl := h
    change I.call .replace [_, I.value (.string old), I.value (.string new)] = _ ↔ (old = "" → new = "")
    rw [hI.value_string, hI.value_string]
    by_cases hold : old = ""
    · subst hold
      rw [String.toList_empty, hI.replace_empty, hI.eq_value_iff, Text.replace_empty_eq_iff]
      simp
    · have hne : old.toList ≠ [] := by simpa using hold
      rw [hI.replace _ _ _ _ hne (Text.replaced_replace hne _), hI.eq_value_iff]
      simp [hold]
  | padLeft width fill =>
    obtain ⟨w, hw, rfl⟩ := h
    change I.call .padLeft [_, I.value (.int width), I.value (.string (String.singleton fill))] = _ ↔
      (subject.toList.length : Int) ≤ width.toInt
    rw [hI.value_int, hI.value_string, hw, String.toList_singleton, hI.padLeft, hI.eq_value_iff]
    rw [List.append_cancel_left_eq, eq_comm, List.take_eq_self_iff, Int.ofNat_le]
  | padRight width fill =>
    obtain ⟨w, hw, rfl⟩ := h
    change I.call .padRight [_, I.value (.int width), I.value (.string (String.singleton fill))] = _ ↔
      (subject.toList.length : Int) ≤ width.toInt
    rw [hI.value_int, hI.value_string, hw, String.toList_singleton, hI.padRight, hI.eq_value_iff]
    rw [List.append_cancel_right_eq, eq_comm, List.take_eq_self_iff, Int.ofNat_le]

end TextCall

end LambdaSql
