import Mathlib.Data.List.Basic
import LambdaSql.Dialect.MySql
import LambdaSql.Host.Format

/-!
# Formats of dates in the two places that read them

A format text is read by the host, which goes through it and writes directives for its own calendar, and by the dialect,
which scans it for tokens and writes the codes of the database. Both read the same pieces, the longest field name first at
every place. The host keeps every character that stands for itself; the dialect loses line feeds, and nothing else.

## Main definitions

* `Calendar.Splits` - the pieces of a format text, the longest field name first.
* `Calendar.Piece.directive`, `Host.directives?` - the directives of the host.
* `Host.readDirectives?` - what directives ask for.
* `MySql.code` - the code of a piece for the database, with every character kept.
* `MySql.tokensFrom`, `MySql.tokenCode?` - the dialect's scan and the codes of what it takes.

## Main results

* `Calendar.ofText?_eq_some_iff` - a format text is read as the pieces that it splits into.
* `Host.directives?_eq`, `Host.formatTemporal_eq` - the host formats as its directives ask.
* `MySql.dateFormat?_eq_some_iff`, `MySql.dateFormat?_eq_tokens` - what the dialect turns a format text into.
* `Calendar.read_alike_but_line_feeds` - both read the same pieces, and only line feeds are lost.
-/

namespace LambdaSql

open Calendar

/-! ## Splitting a format text -/

namespace Calendar

/-- The pieces of a format text: at every place the longest field name that stands there, or a character that stands for
itself where no field name does and which is no letter. -/
inductive Splits : List Char → List Piece → Prop where
  | nil : Splits [] []
  | field {name : List Char} {f : Field} {cs : List Char} {ps : List Piece} :
    (name, f) ∈ fieldNames → (∀ e ∈ fieldNames, e.1 <+: name ++ cs → e.1.length ≤ name.length) → Splits cs ps →
    Splits (name ++ cs) (.field f :: ps)
  | literal {c : Char} {cs : List Char} {ps : List Piece} :
    (∀ e ∈ fieldNames, ¬e.1 <+: c :: cs) → isLetter c = false → Splits cs ps → Splits (c :: cs) (.literal c :: ps)

/-- No field name starts with one that comes before it. -/
theorem fieldNames_ordered : fieldNames.Pairwise fun e e' => ¬e.1 <+: e'.1 := by
  decide

/-- No field name is empty. -/
theorem ne_nil_of_mem_fieldNames {e : List Char × Field} (he : e ∈ fieldNames) : e.1 ≠ [] := by
  revert e
  decide

/-- Field names consist of letters. -/
theorem isLetter_of_mem_fieldNames {e : List Char × Field} (he : e ∈ fieldNames) {c : Char} (hc : c ∈ e.1) :
    isLetter c = true := by
  have hall : fieldNames.all (fun e => e.1.all isLetter) = true := by decide
  exact List.all_eq_true.mp (List.all_eq_true.mp hall e he) c hc

/-- **The first field name at a place is the longest one**, since no name starts with one that comes before it.

**Proof sketch.** Of two names at the same place one is the start of the other. The table has no name after one that
it starts with, so the first one found is the longest; and as no name stands in the table twice, the longest one is
the first one found. -/
theorem firstName?_eq_some_iff {cs : List Char} {e : List Char × Field} :
    firstName? fieldNames cs = some e ↔
      e ∈ fieldNames ∧ e.1 <+: cs ∧ ∀ e' ∈ fieldNames, e'.1 <+: cs → e'.1.length ≤ e.1.length := by
  have hlongest {e : List Char × Field} (h : firstName? fieldNames cs = some e) :
      e ∈ fieldNames ∧ e.1 <+: cs ∧ ∀ e' ∈ fieldNames, e'.1 <+: cs → e'.1.length ≤ e.1.length := by
    obtain ⟨he, before, after, htable, hbefore⟩ := List.find?_eq_some_iff_append.mp h
    rw [List.isPrefixOf_iff_prefix] at he
    refine ⟨by simp [htable], he, fun e' he' hprefix => ?_⟩
    rw [htable] at he'
    rcases List.mem_append.mp he' with he' | he'
    · exact absurd hprefix (by simpa [← List.isPrefixOf_iff_prefix] using hbefore e' he')
    · rcases List.mem_cons.mp he' with rfl | he'
      · exact Nat.le_refl _
      · -- the two names start alike, and the one that comes first is not the start of the other
        have hordered := fieldNames_ordered
        rw [htable] at hordered
        have hnot := (List.pairwise_cons.mp (List.pairwise_append.mp hordered).2.1).1 e' he'
        exact ((List.prefix_or_prefix_of_prefix he hprefix).resolve_left hnot).length_le
  refine ⟨hlongest, fun ⟨he, hprefix, hmax⟩ => ?_⟩
  obtain ⟨first, hfirst⟩ : ∃ first, firstName? fieldNames cs = some first :=
    Option.isSome_iff_exists.mp (List.find?_isSome.mpr ⟨e, he, by simpa using hprefix⟩)
  obtain ⟨hmem, hstart, hmax'⟩ := hlongest hfirst
  have hlength : first.1.length = e.1.length :=
    Nat.le_antisymm (hmax first hmem hstart) (hmax' e he hprefix)
  have hname : first.1 = e.1 :=
    (List.prefix_of_prefix_length_le hstart hprefix (Nat.le_of_eq hlength)).eq_of_length hlength
  have hunique : ∀ e ∈ fieldNames, ∀ e' ∈ fieldNames, e.1 = e'.1 → e = e' := by decide
  rw [← hunique first hmem e he hname]
  exact hfirst

/-- No field name starts at a place where none is found. -/
theorem firstName?_eq_none_iff {cs : List Char} :
    firstName? fieldNames cs = none ↔ ∀ e ∈ fieldNames, ¬e.1 <+: cs := by
  simp [firstName?]

/-- Induction on a format text, by field names where some stand and by characters elsewhere. -/
theorem induction_on_places {motive : List Char → Prop} (nil : motive [])
    (field : ∀ name f cs, firstName? fieldNames (name ++ cs) = some (name, f) → motive cs → motive (name ++ cs))
    (other : ∀ c cs, firstName? fieldNames (c :: cs) = none → motive cs → motive (c :: cs)) (cs : List Char) :
    motive cs := by
  induction hn : cs.length using Nat.strongRecOn generalizing cs with
  | _ n ih =>
    cases cs with
    | nil => exact nil
    | cons c cs =>
      rw [List.length_cons] at hn
      cases hfirst : firstName? fieldNames (c :: cs) with
      | none => exact other c cs hfirst (ih cs.length (by omega) cs rfl)
      | some e =>
        obtain ⟨name, f⟩ := e
        obtain ⟨hmem, ⟨rest, hrest⟩, -⟩ := firstName?_eq_some_iff.mp hfirst
        have hpos := List.length_pos_of_ne_nil (ne_nil_of_mem_fieldNames hmem)
        have hlength : name.length + rest.length = cs.length + 1 := by rw [← List.length_append, hrest, List.length_cons]
        rw [← hrest] at hfirst ⊢
        exact field name f rest hfirst (ih rest.length (by dsimp only at hpos; omega) rest rfl)

/-- What skips a number of characters one by one skips them all. -/
theorem skipped {α : Type} {read : Nat → List Char → α} (h : ∀ skip c cs, read (skip + 1) (c :: cs) = read skip cs)
    (name cs : List Char) : read name.length (name ++ cs) = read 0 cs := by
  induction name with
  | nil => rfl
  | cons c name ih => exact (h name.length c (name ++ cs)).trans ih

/-- A reading of format texts that takes a field name character by character takes all of it. -/
theorem taken {α : Type} {read : Nat → List Char → α} (take : List Char → Field → α → α)
    (h : ∀ skip c cs, read (skip + 1) (c :: cs) = read skip cs)
    (hfield : ∀ c cs name f, firstName? fieldNames (c :: cs) = some (name, f) →
      read 0 (c :: cs) = take name f (read (name.length - 1) cs))
    {name : List Char} {f : Field} {cs : List Char} (hfirst : firstName? fieldNames (name ++ cs) = some (name, f)) :
    read 0 (name ++ cs) = take name f (read 0 cs) := by
  obtain ⟨c, name, rfl⟩ := List.exists_cons_of_ne_nil (ne_nil_of_mem_fieldNames (firstName?_eq_some_iff.mp hfirst).1)
  rw [List.cons_append, hfield c (name ++ cs) (c :: name) f hfirst, List.length_cons, Nat.add_sub_cancel,
    skipped h name cs]

/-- A format text is read character by character, past those of a field name that is already read. -/
theorem ofText?_loop : ∃ read : Nat → List Char → Option (List Piece),
    (∀ format, Piece.ofText? format = read 0 format.toList) ∧ (∀ skip, read skip [] = some []) ∧
    ∀ skip c cs, read skip (c :: cs) =
      if 0 < skip then read (skip - 1) cs
      else
        match firstName? fieldNames (c :: cs) with
        | some (name, f) => (read (name.length - 1) cs).map (.field f :: ·)
        | none => if isLetter c then none else (read 0 cs).map (.literal c :: ·) :=
  ⟨_, fun _ => rfl, fun _ => rfl, fun _ _ _ => rfl⟩

/-- **How a format text is read**: a field name as its field, and any other character as itself unless it is a letter. -/
theorem ofText?_read : ∃ read : List Char → Option (List Piece),
    (∀ format, Piece.ofText? format = read format.toList) ∧ read [] = some [] ∧
    (∀ name f cs, firstName? fieldNames (name ++ cs) = some (name, f) →
      read (name ++ cs) = (read cs).map (.field f :: ·)) ∧
    ∀ c cs, firstName? fieldNames (c :: cs) = none →
      read (c :: cs) = if isLetter c then none else (read cs).map (.literal c :: ·) := by
  obtain ⟨read, hread, hnil, hcons⟩ := ofText?_loop
  refine ⟨read 0, hread, hnil 0, fun name f cs => ?_, fun c cs h => ?_⟩
  · refine taken (fun _ f => Option.map (Piece.field f :: ·)) (fun skip c cs => ?_) fun c cs name f h => ?_
    · rw [hcons, if_pos (Nat.succ_pos skip), Nat.add_sub_cancel]
    · rw [hcons, if_neg (Nat.lt_irrefl 0), h]
  · rw [hcons, if_neg (Nat.lt_irrefl 0), h]

/-- **A format text is read as the pieces that it splits into.**

**Proof sketch.** Induction over the places of the format, each of which begins with a field name or with another
character; conversely, induction on how the format is split. -/
theorem ofText?_eq_some_iff {format : String} {ps : List Piece} :
    Piece.ofText? format = some ps ↔ Splits format.toList ps := by
  obtain ⟨read, hread, hnil, hfield, hother⟩ := ofText?_read
  rw [hread]
  generalize format.toList = cs
  constructor
  · induction cs using induction_on_places generalizing ps with
    | nil =>
      rw [hnil]
      rintro ⟨⟩
      exact .nil
    | field name f cs hfirst ih =>
      rw [hfield name f cs hfirst, Option.map_eq_some_iff]
      rintro ⟨qs, hqs, rfl⟩
      obtain ⟨hmem, -, hmax⟩ := firstName?_eq_some_iff.mp hfirst
      exact .field hmem hmax (ih hqs)
    | other c cs hfirst ih =>
      rw [hother c cs hfirst]
      split
      · nofun
      · next hletter =>
        rw [Option.map_eq_some_iff]
        rintro ⟨qs, hqs, rfl⟩
        exact .literal (firstName?_eq_none_iff.mp hfirst) (by simpa using hletter) (ih hqs)
  · intro h
    induction h with
    | nil => exact hnil
    | @field name f cs ps hmem hmax _ ih =>
      rw [hfield name f cs (firstName?_eq_some_iff.mpr ⟨hmem, ⟨cs, rfl⟩, hmax⟩), ih, Option.map_some]
    | @literal c cs ps hnone hletter _ ih =>
      rw [hother c cs (firstName?_eq_none_iff.mpr hnone), hletter, ih]
      rfl

/-- A format text splits in one way. -/
theorem Splits.unique {format : String} {ps qs : List Piece} (hps : Splits format.toList ps)
    (hqs : Splits format.toList qs) : qs = ps :=
  Option.some.inj ((ofText?_eq_some_iff.mpr hqs).symm.trans (ofText?_eq_some_iff.mpr hps))

/-- A line feed in a format text stands for itself. -/
theorem Splits.mem_line_feed_iff {cs : List Char} {ps : List Piece} (h : Splits cs ps) :
    .literal '\n' ∈ ps ↔ '\n' ∈ cs := by
  induction h with
  | nil => simp
  | @field name f cs ps hmem _ _ ih =>
    have hname : '\n' ∉ name := fun hc => absurd (isLetter_of_mem_fieldNames hmem hc) (by decide)
    simp [ih, hname]
  | literal _ _ _ ih => simp [ih, eq_comm]

/-! ## The directives of the host -/

/-- The directive of a field. -/
def Field.directive : Field → String
  | .year => "%Y"
  | .yearOfCentury => "%y"
  | .monthName => "%B"
  | .monthShort => "%b"
  | .monthPadded => "%m"
  | .month => "%-m"
  | .dayName => "%A"
  | .dayShort => "%a"
  | .dayPadded => "%d"
  | .day => "%-d"
  | .hourPadded => "%H"
  | .hour => "%-H"
  | .hourOfHalfPadded => "%I"
  | .hourOfHalf => "%-I"
  | .minute => "%M"
  | .second => "%S"
  | .micros => "%6f"
  | .millis => "%3f"
  | .half => "%p"

/-- The directive of a piece. A percent sign is written twice. -/
def Piece.directive : Piece → List Char
  | .field f => f.directive.toList
  | .literal c => if c = '%' then ['%', '%'] else [c]

end Calendar

namespace Host

/-- The directives for a format text after `skip` characters of a field name already read: that of the first field name
at a place, or the character as it is, a percent sign twice, unless it is a letter. -/
def directivesFrom (skip : Nat) : List Char → Option (List Char)
  | [] => some []
  | c :: cs =>
    if 0 < skip then directivesFrom (skip - 1) cs
    else
      match firstName? fieldNames (c :: cs) with
      | some (name, f) => (directivesFrom (name.length - 1) cs).map (f.directive.toList ++ ·)
      | none => if isLetter c then none else (directivesFrom 0 cs).map ((if c = '%' then ['%', '%'] else [c]) ++ ·)

/-- A format text as directives. -/
def directives? (format : String) : Option String := (directivesFrom 0 format.toList).map String.ofList

/-- **The directives are those of the pieces.**

**Proof sketch.** By induction on the places of the format, along which directives and pieces are read alike. -/
theorem directives?_eq (format : String) :
    directives? format = (Piece.ofText? format).map fun ps => String.ofList (ps.flatMap Piece.directive) := by
  obtain ⟨read, hread, hnil, hfield, hother⟩ := ofText?_read
  have hdirectives (cs : List Char) :
      directivesFrom 0 cs = (read cs).map fun ps => ps.flatMap Piece.directive := by
    induction cs using induction_on_places with
    | nil =>
      rw [hnil]
      rfl
    | field name f cs hfirst ih =>
      have htaken : directivesFrom 0 (name ++ cs) = (directivesFrom 0 cs).map (f.directive.toList ++ ·) := by
        refine taken (fun _ f => Option.map (f.directive.toList ++ ·)) (fun _ _ _ => rfl) (fun c cs name f h => ?_) hfirst
        rw [directivesFrom, if_neg (Nat.lt_irrefl 0), h]
      simp [htaken, hfield name f cs hfirst, ih, Function.comp_def, Piece.directive]
    | other c cs hfirst ih =>
      rw [directivesFrom, if_neg (Nat.lt_irrefl 0), hfirst, hother c cs hfirst]
      cases isLetter c <;> simp [ih, Function.comp_def, Piece.directive]
  simp [directives?, hread, hdirectives, Function.comp_def]

/-- The field that a letter behind a percent sign asks for. -/
def lettered? : Char → Option Calendar.Field
  | 'Y' => some .year
  | 'y' => some .yearOfCentury
  | 'B' => some .monthName
  | 'b' => some .monthShort
  | 'm' => some .monthPadded
  | 'A' => some .dayName
  | 'a' => some .dayShort
  | 'd' => some .dayPadded
  | 'H' => some .hourPadded
  | 'I' => some .hourOfHalfPadded
  | 'M' => some .minute
  | 'S' => some .second
  | 'p' => some .half
  | _ => none

/-- The field that a letter asks for when it is not to be padded. -/
def unpadded? : Char → Option Calendar.Field
  | 'm' => some .month
  | 'd' => some .day
  | 'H' => some .hour
  | 'I' => some .hourOfHalf
  | _ => none

/-- What directives ask for. -/
def readDirectives? : List Char → Option (List Piece)
  | [] => some []
  | '%' :: '%' :: cs => (readDirectives? cs).map (.literal '%' :: ·)
  | '%' :: '-' :: c :: cs => (unpadded? c).bind fun f => (readDirectives? cs).map (.field f :: ·)
  | '%' :: '6' :: 'f' :: cs => (readDirectives? cs).map (.field .micros :: ·)
  | '%' :: '3' :: 'f' :: cs => (readDirectives? cs).map (.field .millis :: ·)
  | '%' :: c :: cs => (lettered? c).bind fun f => (readDirectives? cs).map (.field f :: ·)
  | '%' :: [] => none
  | c :: cs => (readDirectives? cs).map (.literal c :: ·)

/-- The text of a date and a time as directives ask for it. -/
def followDirectives (date : Option Date) (time : Option Clock) (directives : String) : Evaluation String :=
  match (readDirectives? directives.toList).bind (Calendar.render date time) with
  | some text => return text
  | none => throw (.fault .fieldNotThere)

/-- Directives ask for the pieces that they were made from. -/
theorem readDirectives?_flatMap (ps : List Piece) : readDirectives? (ps.flatMap Piece.directive) = some ps := by
  induction ps with
  | nil => rfl
  | cons p ps ih =>
    rw [List.flatMap_cons]
    cases p with
    | field f =>
      cases f <;> simp [Piece.directive, Calendar.Field.directive, readDirectives?, lettered?, unpadded?, ih]
    | literal c =>
      by_cases hc : c = '%'
      · subst hc
        simp [Piece.directive, readDirectives?, ih]
      · simp [Piece.directive, hc, readDirectives?, ih]

/-- **The host formats as its directives ask.** -/
theorem formatTemporal_eq (date : Option Date) (time : Option Clock) (format : String) :
    formatTemporal date time format = Evaluation.ofOption (directives? format) >>= followDirectives date time := by
  rw [directives?_eq]
  unfold formatTemporal
  cases Piece.ofText? format with
  | none => rfl
  | some ps =>
    change _ = followDirectives date time (String.ofList (ps.flatMap Piece.directive))
    rw [followDirectives, String.toList_ofList, readDirectives?_flatMap, Option.bind_some]
    rfl

end Host

/-! ## The codes of the database -/

namespace MySql

/-- The code of a piece for the database, with every character kept. A percent sign is written twice. -/
def code : Piece → List Char
  | .field f => ((fieldCode? f).getD "").toList
  | .literal c => if c = '%' then ['%', '%'] else [c]

/-- Milliseconds have no code, and they are the only piece without one. -/
theorem pieceCode?_eq_none_iff {p : Piece} : pieceCode? p = none ↔ p = .field .millis := by
  cases p with
  | field f => cases f <;> decide
  | literal c => simp [pieceCode?]

/-- A piece is given its code unless it is a line feed, which is given none. -/
theorem toList_of_pieceCode? {p : Piece} {s : String} (h : pieceCode? p = some s) :
    s.toList = if p = .literal '\n' then [] else code p := by
  cases p with
  | field f =>
    simp only [pieceCode?] at h
    simp [code, h]
  | literal c =>
    obtain rfl := Option.some.inj h
    by_cases hpercent : c = '%'
    · subst hpercent
      decide
    · by_cases hfeed : c = '\n'
      · subst hfeed
        decide
      · simp [code, hpercent, hfeed]

/-- The codes of pieces one after the other.

**Proof sketch.** By induction on the pieces. Milliseconds have no code, a line feed is left out, and any other piece
has its code. -/
theorem mapM_pieceCode?_eq_some_iff {ps : List Piece} {g : String} :
    (ps.mapM pieceCode?).map String.join = some g ↔
      .field .millis ∉ ps ∧ g.toList = (ps.filter (· ≠ .literal '\n')).flatMap code := by
  induction ps generalizing g with
  | nil =>
    simp only [List.mapM_nil, Option.pure_def, Option.map_some, Option.some.injEq, List.not_mem_nil, not_false_eq_true,
      true_and, List.filter_nil, List.flatMap_nil, String.toList_eq_nil_iff]
    exact eq_comm
  | cons p ps ih =>
    cases hp : pieceCode? p with
    | none =>
      obtain rfl := pieceCode?_eq_none_iff.mp hp
      simp [List.mapM_cons, hp]
    | some s =>
      have hmillis : p ≠ .field .millis := fun h => by simp [pieceCode?_eq_none_iff.mpr h] at hp
      have hjoin : ((p :: ps).mapM pieceCode?).map String.join = some g ↔
          ∃ g', (ps.mapM pieceCode?).map String.join = some g' ∧ s ++ g' = g := by
        cases hps : ps.mapM pieceCode? <;> simp [List.mapM_cons, hp, hps, String.join_cons]
      have hcode : ((p :: ps).filter (· ≠ .literal '\n')).flatMap code =
          s.toList ++ (ps.filter (· ≠ .literal '\n')).flatMap code := by
        rw [toList_of_pieceCode? hp]
        by_cases hfeed : p = .literal '\n' <;> simp [hfeed]
      rw [hjoin, hcode]
      simp only [ih, List.mem_cons, hmillis.symm, false_or]
      constructor
      · rintro ⟨g', ⟨hps, hg'⟩, rfl⟩
        exact ⟨hps, by rw [String.toList_append, hg']⟩
      · rintro ⟨hps, hg⟩
        exact ⟨_, ⟨hps, String.toList_ofList⟩, String.toList_inj.mp (by simp [hg])⟩

/-- **What the dialect turns a format text into**: its pieces, unless one of them is milliseconds, one code after the
other, without line feeds. -/
theorem dateFormat?_eq_some_iff {format g : String} :
    dateFormat? format = some g ↔ ∃ ps, Splits format.toList ps ∧ .field .millis ∉ ps ∧
      g.toList = (ps.filter (· ≠ .literal '\n')).flatMap code := by
  simp only [dateFormat?, Option.bind_eq_some_iff, ofText?_eq_some_iff, mapM_pieceCode?_eq_some_iff]

/-! ### Scanning -/

/-- What the scan takes at a place: the first field name that stands there, or else all letters, or else one character
that is no line feed. -/
def token? (c : Char) (cs : List Char) : Option (List Char) :=
  match firstName? fieldNames (c :: cs) with
  | some (name, _) => some name
  | none => if isLetter c then some ((c :: cs).takeWhile isLetter) else if c = '\n' then none else some [c]

/-- What the scan takes one after the other, after `skip` characters already taken. It passes over what it cannot
take. -/
def tokensFrom (skip : Nat) : List Char → List (List Char)
  | [] => []
  | c :: cs =>
    if 0 < skip then tokensFrom (skip - 1) cs
    else
      match token? c cs with
      | some t => t :: tokensFrom (t.length - 1) cs
      | none => tokensFrom 0 cs

/-- The code of what the scan takes. Letters other than field names have none. -/
def tokenCode? (t : List Char) : Option (List Char) :=
  match fieldNames.lookup t with
  | some f => (fieldCode? f).map String.toList
  | none => if t = ['%'] then some ['%', '%'] else if t.all isLetter then none else some t

/-- The code of a field name is that of the field. -/
theorem tokenCode?_of_mem {name : List Char} {f : Calendar.Field} (h : (name, f) ∈ fieldNames) :
    tokenCode? name = (fieldCode? f).map String.toList := by
  have hlookup : ∀ e ∈ fieldNames, fieldNames.lookup e.1 = some e.2 := by decide
  rw [tokenCode?, hlookup _ h]

/-- Where no field name stands, letters have no code, and a character has that of the piece that it is. -/
theorem tokenCode?_of_none {c : Char} {cs : List Char} (h : firstName? fieldNames (c :: cs) = none) :
    (isLetter c = true → tokenCode? ((c :: cs).takeWhile isLetter) = none) ∧
      (isLetter c = false → c ≠ '\n' → tokenCode? [c] = (pieceCode? (.literal c)).map String.toList) := by
  have hnone {t : List Char} (ht : t <+: c :: cs) : fieldNames.lookup t = none := by
    refine List.lookup_eq_none_iff.mpr fun e he => ?_
    have hnot := firstName?_eq_none_iff.mp h e he
    have hne : t ≠ e.1 := fun heq => hnot (heq ▸ ht)
    simpa using hne
  refine ⟨fun hletter => ?_, fun hletter hfeed => ?_⟩
  · have hpercent : (c :: cs).takeWhile isLetter ≠ ['%'] := fun heq => by
      rw [List.takeWhile_cons_of_pos hletter] at heq
      obtain ⟨rfl, -⟩ := List.cons.inj heq
      cases hletter
    simp [tokenCode?, hnone (List.takeWhile_prefix _), hpercent]
  · rw [tokenCode?, hnone ⟨cs, rfl⟩]
    by_cases hpercent : c = '%' <;> simp [pieceCode?, hpercent, hfeed, hletter]

/-- **The dialect scans a format text** and writes the code of what it takes.

**Proof sketch.** Induction over the places of the format: the scanner takes the longest field name where there is one
and a single character otherwise, and what it takes has the code of the piece that is read there. -/
theorem dateFormat?_eq_tokens (format : String) :
    (dateFormat? format).map String.toList = ((tokensFrom 0 format.toList).mapM tokenCode?).map List.flatten := by
  obtain ⟨read, hread, hnil, hfield, hother⟩ := ofText?_read
  let codes? (ps : Option (List Piece)) : Option (List Char) :=
    ps.bind fun ps => ((ps.mapM pieceCode?).map String.join).map String.toList
  let written? (ts : List (List Char)) : Option (List Char) := (ts.mapM tokenCode?).map List.flatten
  have hcodes (p : Piece) (ps : Option (List Piece)) : codes? (ps.map (p :: ·)) =
      ((pieceCode? p).map String.toList).bind fun s => (codes? ps).map (s ++ ·) := by
    cases ps with
    | none => cases pieceCode? p <;> rfl
    | some ps =>
      cases hp : pieceCode? p <;> cases hps : ps.mapM pieceCode? <;>
        simp [codes?, List.mapM_cons, hp, hps, String.join_cons]
  have hwritten (t : List Char) (ts : List (List Char)) : written? (t :: ts) =
      (tokenCode? t).bind fun s => (written? ts).map (s ++ ·) := by
    cases ht : tokenCode? t <;> cases hts : ts.mapM tokenCode? <;> simp [written?, List.mapM_cons, ht, hts]
  have hscan (cs : List Char) : codes? (read cs) = written? (tokensFrom 0 cs) := by
    induction cs using induction_on_places with
    | nil =>
      rw [hnil]
      rfl
    | field name f cs hfirst ih =>
      have htaken : tokensFrom 0 (name ++ cs) = name :: tokensFrom 0 cs := by
        refine taken (fun name _ => List.cons name) (fun _ _ _ => rfl) (fun c cs name f h => ?_) hfirst
        rw [tokensFrom, if_neg (Nat.lt_irrefl 0), token?, h]
      rw [htaken, hwritten, tokenCode?_of_mem (firstName?_eq_some_iff.mp hfirst).1, ← ih, hfield name f cs hfirst, hcodes]
      rfl
    | other c cs hfirst ih =>
      obtain ⟨hletters, hsingle⟩ := tokenCode?_of_none hfirst
      rw [tokensFrom, if_neg (Nat.lt_irrefl 0), token?, hfirst, hother c cs hfirst]
      cases hletter : isLetter c with
      | true => simp [hwritten, hletters hletter, codes?]
      | false =>
        by_cases hfeed : c = '\n'
        · simp [hfeed, hcodes, pieceCode?, ih]
        · simp [hfeed, hwritten, hsingle hletter hfeed, hcodes, ih]
  rw [dateFormat?, hread, Option.map_bind]
  exact hscan format.toList

/-- No code is empty. -/
theorem code_ne_nil {p : Piece} (h : p ≠ .field .millis) : code p ≠ [] := by
  cases p with
  | field f => cases f <;> first | exact absurd rfl h | decide
  | literal c =>
    by_cases hc : c = '%' <;> simp [code, hc]

/-- Line feeds come from line feeds. -/
theorem count_flatMap_code (ps : List Piece) : (ps.flatMap code).count '\n' = ps.count (.literal '\n') := by
  induction ps with
  | nil => rfl
  | cons p ps ih =>
    rw [List.flatMap_cons, List.count_append, ih, List.count_cons, Nat.add_comm]
    congr 1
    cases p with
    | field f => cases f <;> decide
    | literal c =>
      by_cases hc : c = '%'
      · subst hc
        decide
      · simp [code, hc, List.count_cons]

/-- Leaving line feeds out changes the codes of just those pieces that have some. -/
theorem flatMap_code_filter_eq_iff {ps : List Piece} :
    (ps.filter (· ≠ .literal '\n')).flatMap code = ps.flatMap code ↔ .literal '\n' ∉ ps := by
  constructor
  · intro h hmem
    have hcount := congrArg (List.count '\n') h
    rw [count_flatMap_code, count_flatMap_code, List.count_eq_zero_of_not_mem (by simp)] at hcount
    exact absurd (List.count_pos_iff.mpr hmem) (by omega)
  · intro h
    rw [List.filter_eq_self.mpr]
    rintro p hp
    exact decide_eq_true fun heq => h (heq ▸ hp)

end MySql

/-! ## Reading alike -/

namespace Calendar

/-- **The host and the dialect read the same pieces of a format text that the dialect has codes for**: the longest field
name first, in one way. The directives of the host keep every character that stands for itself, in order. So do the codes
of what the dialect scans, but for line feeds, which they lose.

**Proof sketch.** Both readers split the format into pieces by taking the longest field name at each position, which
leaves one way to split it. Each piece becomes a directive of the host and a code of the dialect; the only piece whose
code is lost is a line feed, since the scanner's wildcard does not match it. -/
theorem read_alike_but_line_feeds {format g : String} (hg : MySql.dateFormat? format = some g) :
    ∃ ps h codes, Splits format.toList ps ∧ (∀ qs, Splits format.toList qs → qs = ps) ∧
      Host.directives? format = some h ∧ h.toList = ps.flatMap Piece.directive ∧
      (∀ date time, Host.formatTemporal date time format = Host.followDirectives date time h) ∧
      (MySql.tokensFrom 0 format.toList).mapM MySql.tokenCode? = some codes ∧ g.toList = codes.flatten ∧
      (∀ p ∈ ps, MySql.code p ≠ []) ∧ g.toList = (ps.filter (· ≠ .literal '\n')).flatMap MySql.code ∧
      (g.toList = ps.flatMap MySql.code ↔ '\n' ∉ format.toList) := by
  obtain ⟨ps, hps, hmillis, hcodes⟩ := MySql.dateFormat?_eq_some_iff.mp hg
  have hread : Host.directives? format = some (String.ofList (ps.flatMap Piece.directive)) := by
    rw [Host.directives?_eq, ofText?_eq_some_iff.mpr hps, Option.map_some]
  have hscanned := MySql.dateFormat?_eq_tokens format
  rw [hg, Option.map_some] at hscanned
  obtain ⟨codes, hscan, hflat⟩ := Option.map_eq_some_iff.mp hscanned.symm
  refine ⟨ps, _, codes, hps, fun qs => hps.unique, hread, String.toList_ofList, fun date time => ?_, hscan, hflat.symm,
    fun p hp => ?_, hcodes, ?_⟩
  · rw [Host.formatTemporal_eq, hread]
    rfl
  · exact MySql.code_ne_nil fun h => hmillis (h ▸ hp)
  · rw [hcodes, MySql.flatMap_code_filter_eq_iff, hps.mem_line_feed_iff]

/-- A date as year, month and day. -/
theorem ymd_read_alike : ∃ ps h codes, Splits "yyyy-MM-dd".toList ps ∧ (∀ qs, Splits "yyyy-MM-dd".toList qs → qs = ps) ∧
    Host.directives? "yyyy-MM-dd" = some h ∧ h.toList = ps.flatMap Piece.directive ∧
    (∀ date time, Host.formatTemporal date time "yyyy-MM-dd" = Host.followDirectives date time h) ∧
    (MySql.tokensFrom 0 "yyyy-MM-dd".toList).mapM MySql.tokenCode? = some codes ∧ "%Y-%m-%d".toList = codes.flatten ∧
    (∀ p ∈ ps, MySql.code p ≠ []) ∧ "%Y-%m-%d".toList = (ps.filter (· ≠ .literal '\n')).flatMap MySql.code ∧
    ("%Y-%m-%d".toList = ps.flatMap MySql.code ↔ '\n' ∉ "yyyy-MM-dd".toList) :=
  read_alike_but_line_feeds (by decide)

/-- Between a year and a month the dialect loses the line feed that the host keeps. -/
example : MySql.dateFormat? "yyyy\nMM" = some "%Y%m" ∧ Host.directives? "yyyy\nMM" = some "%Y\n%m" := by
  decide

end Calendar
end LambdaSql
