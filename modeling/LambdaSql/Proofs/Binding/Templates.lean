import LambdaSql.Proofs.Binding.Parameters
import LambdaSql.Proofs.Binding.Writing
import LambdaSql.Proofs.Reading.Numerals
import LambdaSql.Render.Template

/-!
# Templates out of parts

A template is put together of literal texts without braces and of places for arguments, which are numbers in braces.
Whatever stands beside what, it is expanded part by part: a literal text is copied, and at the place of an argument stands
the text of the argument, in parentheses where they are needed. However many places an argument has, it is written once,
and the arguments are written in the order of their first places.

## Main definitions

* `Template.Part`, `Template.ofParts` - a part of a template, and the template of several parts.
* `Template.mentioned` - the arguments that have places, in the order of their first ones.
* `Template.Part.filled`, `Template.expansion` - what stands for a part and for several ones in the end.

## Main results

* `Template.pieces_ofParts` - a template is read part by part.
* `Template.expand_ofParts` - a template is expanded part by part, with each argument written once.
-/

namespace LambdaSql.Template

variable {args : List Argument} {before : Option Char} {cs rest : List Char} {held : List (Nat × Phrase)} {i : Nat}

/-! ## Parts -/

/-- A part of a template. -/
inductive Part where
  /-- A text without braces. -/
  | literal (text : String) (plain : ∀ c ∈ text.toList, c ≠ '\x7b' ∧ c ≠ '\x7d')
  /-- The place of an argument, which is a number in braces. -/
  | place (digits : List Char) (nonempty : digits ≠ []) (decimal : ∀ c ∈ digits, Number.isDigit c = true)

namespace Part

/-- A part in a template. -/
def written : Part → List Char
  | literal text _ => text.toList
  | place digits _ _ => '\x7b' :: digits ++ ['\x7d']

/-- The argument that a part stands for. Arguments are numbered by machine words, and a number that is none stands for
itself. -/
def index? : Part → Option Nat
  | literal .. => none
  | place digits _ _ => if Number.ofDigits digits < 2 ^ 64 then some (Number.ofDigits digits) else none

/-- Whether a place stands alone between two characters: a parenthesis or a comma on either side. -/
def Alone (before after : Option Char) : Prop :=
  (before = some '(' ∨ before = some ',') ∧ (after = some ')' ∨ after = some ',')

instance (before after : Option Char) : Decidable (Alone before after) := inferInstanceAs (Decidable (_ ∧ _))

/-- What stands for a part between two characters, `texts` being what is written for the arguments. -/
def filled (args : List Argument) (texts : Nat → String) (before after : Option Char) (part : Part) : String :=
  match part.index? with
  | none => String.ofList part.written
  | some i =>
    match args[i]? with
    | none => "NULL"
    | some arg =>
      if arg.precedence < atomPrecedence ∧ ¬Alone before after then "(" ++ texts i ++ ")" else texts i

/-- The pieces that a part is read as between two characters. -/
def pieces (before after : Option Char) (part : Part) : List Piece :=
  match part.index? with
  | none => part.written.map .char
  | some i => [.argument i (isDelimited before after)]

end Part

/-- The template of several parts. -/
def ofParts (parts : List Part) : String := String.ofList (parts.flatMap Part.written)

/-- The arguments that have places, in the order of their first places. -/
def mentioned (args : List Argument) (parts : List Part) : List (Nat × Argument) :=
  (parts.filterMap Part.index?).eraseDups.filterMap fun i => args[i]?.map (i, ·)

/-- What stands for parts after a character. -/
def expansion (args : List Argument) (texts : Nat → String) : Option Char → List Part → String
  | _, [] => ""
  | before, part :: rest =>
    part.filled args texts before (rest.flatMap Part.written).head? ++
      expansion args texts (part.written.getLast?.or before) rest

/-- The pieces that parts are read as after a character. -/
def piecesOf : Option Char → List Part → List Piece
  | _, [] => []
  | before, part :: rest =>
    part.pieces before (rest.flatMap Part.written).head? ++ piecesOf (part.written.getLast?.or before) rest

/-! ## Reading -/

/-- A text without opening braces is read character by character. -/
theorem piecesFrom_literal (h : ∀ c ∈ cs, c ≠ '\x7b') :
    piecesFrom before none (cs ++ rest) = cs.map .char ++ piecesFrom (cs.getLast?.or before) none rest := by
  induction cs generalizing before with
  | nil => rfl
  | cons c cs ih =>
    obtain ⟨hc, hcs⟩ := List.forall_mem_cons.mp h
    rw [List.cons_append, piecesFrom, if_neg fun hopen => hc hopen.1, ih hcs]
    simp [List.getLast?_cons]

/-- Within braces, everything up to the closing one is read at once. -/
theorem piecesFrom_within (h : '\x7d' ∉ cs) (token : List Char) :
    piecesFrom before (some token) (cs ++ '\x7d' :: rest) =
      place before (token.reverse ++ cs) rest.head? ++ piecesFrom (some '\x7d') none rest := by
  induction cs generalizing token with
  | nil => rw [List.nil_append, List.append_nil, piecesFrom, if_pos rfl]
  | cons c cs ih =>
    obtain ⟨hc, hcs⟩ := not_or.mp (mt List.mem_cons.mpr h)
    rw [List.cons_append, piecesFrom, if_neg (Ne.symm hc), ih hcs, List.reverse_cons, List.append_assoc,
      List.singleton_append]

/-- A part is read as its pieces, whatever follows. -/
theorem piecesFrom_written (part : Part) :
    piecesFrom before none (part.written ++ rest) =
      part.pieces before rest.head? ++ piecesFrom (part.written.getLast?.or before) none rest := by
  cases part with
  | literal text plain => exact piecesFrom_literal fun c hc => (plain c hc).1
  | place digits hne hdigits =>
    have hclosing : '\x7d' ∉ digits := Text.not_mem_digits rfl hdigits
    have hstar : digits ≠ ['*'] := by
      rintro rfl
      exact absurd (hdigits '*' (List.mem_singleton_self _)) (by decide)
    have hplace : place before digits rest.head? = (Part.place digits hne hdigits).pieces before rest.head? := by
      rw [place, if_neg hstar, Number.parseNat?_of_digits hne hdigits]
      by_cases h : Number.ofDigits digits < 2 ^ 64
      · simp only [Part.pieces, Part.index?, if_pos h]
      · simp only [Part.pieces, Part.index?, if_neg h]
        rfl
    have hlast : (Part.place digits hne hdigits).written.getLast? = some '\x7d' := List.getLast?_concat
    rw [hlast, Part.written, List.cons_append, List.cons_append, List.append_assoc, List.singleton_append, piecesFrom,
      if_pos ⟨rfl, by simp⟩, piecesFrom_within hclosing, List.reverse_nil, List.nil_append, hplace]
    rfl

/-- **A template is read part by part.** -/
theorem pieces_ofParts (parts : List Part) : pieces (ofParts parts) = piecesOf none parts := by
  have hfrom (before : Option Char) : piecesFrom before none (parts.flatMap Part.written) = piecesOf before parts := by
    induction parts generalizing before with
    | nil => rfl
    | cons part rest ih => rw [List.flatMap_cons, piecesFrom_written, ih, piecesOf]
  rw [pieces, ofParts, String.toList_ofList, hfrom]

/-! ## Writing -/

/-- What is held for an argument that has been written, as a text. -/
def textOf (held : List (Nat × Phrase)) (i : Nat) : String := (held.lookup i).elim "" Phrase.text

/-- Writes an argument and holds what is written. -/
def hold (m : Nat × Argument) : Writing (Nat × Phrase) := do return (m.1, ← m.2.write)

/-- The arguments in a list for which nothing is held. -/
def unwritten (held : List (Nat × Phrase)) (ms : List (Nat × Argument)) : List (Nat × Argument) :=
  ms.filter fun m => (held.lookup m.1).isNone

/-! ### What remains to be written -/

/-- A part without index mentions nothing. -/
private theorem mentioned_cons_none {part : Part} (h : part.index? = none) (parts : List Part) :
    mentioned args (part :: parts) = mentioned args parts := by
  rw [mentioned, List.filterMap_cons_none h, mentioned]

/-- A part with an index mentions its argument, which later parts do not mention anew. -/
private theorem mentioned_cons_some {part : Part} (h : part.index? = some i) (parts : List Part) :
    mentioned args (part :: parts) =
      (args[i]?.map (i, ·)).toList ++ (mentioned args parts).filter fun m => m.1 != i := by
  have hcomm (is : List Nat) : (is.filter (!· == i)).filterMap (fun j => args[j]?.map (j, ·)) =
      (is.filterMap fun j => args[j]?.map (j, ·)).filter fun m => m.1 != i := by
    rw [List.filterMap_filter, List.filter_filterMap]
    refine congrArg (List.filterMap · is) (funext fun j => ?_)
    cases args[j]? with
    | none => simp
    | some arg => by_cases hij : j = i <;> simp [Option.filter, hij]
  rw [mentioned, List.filterMap_cons_some h, List.eraseDups_cons, filter_eraseDups, List.filterMap_cons, hcomm, mentioned]
  cases args[i]? <;> rfl

/-- Another phrase is found past the first one. -/
private theorem lookup_cons_of_ne {j : Nat} (h : j ≠ i) (p : Phrase) : ((i, p) :: held).lookup j = held.lookup j := by
  rw [List.lookup_cons, beq_eq_false_iff_ne.mpr h]

/-- What is mentioned is the argument at its index. -/
private theorem getElem?_of_mem_mentioned {parts : List Part} {m : Nat × Argument} (h : m ∈ mentioned args parts) :
    args[m.1]? = some m.2 := by
  obtain ⟨j, -, hj⟩ := List.mem_filterMap.mp h
  obtain ⟨arg, harg, rfl⟩ := Option.map_eq_some_iff.mp hj
  exact harg

/-- Once an argument is held, the others remain to be written. -/
theorem unwritten_cons (i : Nat) (p : Phrase) (ms : List (Nat × Argument)) :
    unwritten ((i, p) :: held) ms = unwritten held (ms.filter fun m => m.1 != i) := by
  rw [unwritten, unwritten, List.filter_filter]
  refine congrArg (List.filter · ms) (funext fun m => ?_)
  by_cases hm : m.1 = i
  · rw [hm, List.lookup_cons_self, bne_self_eq_false, Bool.and_false]
    rfl
  · rw [lookup_cons_of_ne hm, bne_iff_ne.mpr hm, Bool.and_true]

/-- What is held for an argument may be held at the front. -/
theorem textOf_front {p : Phrase} (h : held.lookup i = some p) : textOf ((i, p) :: held) = textOf held := by
  funext j
  by_cases hj : j = i
  · rw [hj, textOf, textOf, List.lookup_cons_self, h]
  · rw [textOf, textOf, lookup_cons_of_ne hj]

/-- An argument that is written now may be held at the front. -/
theorem textOf_append_hold (h : held.lookup i = none) (p : Phrase) (new : List (Nat × Phrase)) :
    textOf (held ++ (i, p) :: new) = textOf ((i, p) :: held ++ new) := by
  funext j
  rw [textOf, textOf, List.lookup_append, List.cons_append]
  by_cases hj : j = i
  · rw [hj, h, List.lookup_cons_self, List.lookup_cons_self]
    rfl
  · rw [lookup_cons_of_ne hj, lookup_cons_of_ne hj, List.lookup_append]

/-- A place of no argument leaves what has to be written as it is. -/
theorem mentioned_cons_missing {part : Part} (hpart : part.index? = some i) (harg : args[i]? = none)
    (parts : List Part) : mentioned args (part :: parts) = mentioned args parts := by
  rw [mentioned_cons_some hpart, harg, Option.map_none, Option.toList_none, List.nil_append]
  refine List.filter_eq_self.mpr fun m hm => bne_iff_ne.mpr fun hi => ?_
  rw [← hi, getElem?_of_mem_mentioned hm] at harg
  cases harg

/-- So does a place of an argument that is held. -/
theorem unwritten_mentioned_held {part : Part} {arg : Argument} {p : Phrase} (hpart : part.index? = some i)
    (harg : args[i]? = some arg) (hheld : held.lookup i = some p) (parts : List Part) :
    unwritten held (mentioned args (part :: parts)) = unwritten ((i, p) :: held) (mentioned args parts) := by
  rw [unwritten_cons, mentioned_cons_some hpart, harg, Option.map_some, Option.toList_some, List.singleton_append,
    unwritten, List.filter_cons_of_neg (by simp [hheld]), unwritten]

/-- The first place of an argument makes it the first one to be written. -/
theorem unwritten_mentioned_first {part : Part} {arg : Argument} (hpart : part.index? = some i)
    (harg : args[i]? = some arg) (hheld : held.lookup i = none) (parts : List Part) :
    unwritten held (mentioned args (part :: parts)) =
      (i, arg) :: unwritten held ((mentioned args parts).filter fun m => m.1 != i) := by
  rw [mentioned_cons_some hpart, harg, Option.map_some, Option.toList_some, List.singleton_append, unwritten,
    List.filter_cons_of_pos (by simp [hheld]), unwritten]

/-! ### The text of an expansion -/

/-- A phrase in front of what is written. -/
theorem text_append_map (q : Phrase) (w : Writing Phrase) :
    (fun p => Phrase.text (q ++ p)) <$> w = (q.text ++ ·) <$> Phrase.text <$> w := by
  rw [Functor.map_map]
  exact congrArg (· <$> w) (funext fun p => Phrase.text_append q p)

/-- Characters are copied. -/
theorem text_expandPieces_chars (cs : List Char) (rest : List Piece) :
    Phrase.text <$> expandPieces args held (cs.map .char ++ rest) =
      (String.ofList cs ++ ·) <$> Phrase.text <$> expandPieces args held rest := by
  induction cs with
  | nil => simp
  | cons c cs ih =>
    rw [List.map_cons, List.cons_append, expandPieces, bind_pure_comp, Functor.map_map]
    show (fun p => Phrase.text (Phrase.ofText (String.singleton c) ++ p)) <$> _ = _
    rw [text_append_map, ih, Functor.map_map, Phrase.text_ofText, String.ofList_cons]
    exact congrArg (· <$> _) (funext fun s => (String.append_assoc ..).symm)

/-- The place of no argument. -/
theorem text_expandPieces_missing (harg : args[i]? = none) (delimited : Bool) (rest : List Piece) :
    Phrase.text <$> expandPieces args held (.argument i delimited :: rest) =
      ("NULL" ++ ·) <$> Phrase.text <$> expandPieces args held rest := by
  simp only [expandPieces, harg]
  rw [bind_pure_comp, Functor.map_map, text_append_map, Phrase.text_ofText]

/-- A place of an argument that is held. -/
theorem text_expandPieces_held {arg : Argument} {p : Phrase} (harg : args[i]? = some arg)
    (hheld : held.lookup i = some p) (delimited : Bool) (rest : List Piece) :
    Phrase.text <$> expandPieces args held (.argument i delimited :: rest) =
      ((p.parenthesisedIf (!delimited && arg.precedence < atomPrecedence)).text ++ ·) <$>
        Phrase.text <$> expandPieces args ((i, p) :: held) rest := by
  simp only [expandPieces, harg, hheld]
  rw [pure_bind, bind_pure_comp, Functor.map_map, text_append_map]

/-- The first place of an argument. -/
theorem text_expandPieces_first {arg : Argument} (harg : args[i]? = some arg) (hheld : held.lookup i = none)
    (delimited : Bool) (rest : List Piece) :
    Phrase.text <$> expandPieces args held (.argument i delimited :: rest) =
      arg.write >>= fun p =>
        ((p.parenthesisedIf (!delimited && arg.precedence < atomPrecedence)).text ++ ·) <$>
          Phrase.text <$> expandPieces args ((i, p) :: held) rest := by
  simp only [expandPieces, harg, hheld]
  rw [map_bind]
  refine congrArg (arg.write >>= ·) (funext fun p => ?_)
  rw [bind_pure_comp, Functor.map_map, text_append_map]

namespace Part

variable {part : Part}

/-- A part without index stands as it is written. -/
private theorem filled_of_none (h : part.index? = none) (texts : Nat → String) (before after : Option Char) :
    part.filled args texts before after = String.ofList part.written := by
  rw [filled, h]

/-- A part whose argument is missing is filled with a null. -/
private theorem filled_of_missing (h : part.index? = some i) (harg : args[i]? = none) (texts : Nat → String)
    (before after : Option Char) : part.filled args texts before after = "NULL" := by
  rw [filled, h]
  simp only [harg]

/-- What stands for a part that an argument stands for. -/
theorem filled_of_lookup {arg : Argument} {p : Phrase} (hpart : part.index? = some i) (harg : args[i]? = some arg)
    (hheld : held.lookup i = some p) (before after : Option Char) :
    part.filled args (textOf held) before after =
      (p.parenthesisedIf (!isDelimited before after && arg.precedence < atomPrecedence)).text := by
  have halone : Alone before after ↔ isDelimited before after = true := by
    simp [isDelimited, Alone]
  rw [filled, hpart]
  simp only [harg, textOf, hheld, Option.elim_some, halone]
  by_cases hatom : arg.precedence < atomPrecedence <;> cases isDelimited before after <;>
    simp [hatom, Phrase.parenthesisedIf, Phrase.parenthesised, String.append_assoc]

end Part

/-- **What stands for a template after a character**, by induction on its parts: the arguments that are not held are
written in the order of their first places, and then their texts are put into the places.

**Proof sketch.** The place of an argument that is held, or is missing, writes nothing; that of another one writes it
and holds what has been written from then on. A literal text, or a number that is no machine word, is copied character
by character. -/
theorem text_expandPieces (parts : List Part) :
    Phrase.text <$> expandPieces args held (piecesOf before parts) =
      (fun new => expansion args (textOf (held ++ new)) before parts) <$>
        (unwritten held (mentioned args parts)).mapM hold := by
  induction parts generalizing before held with
  | nil => rfl
  | cons part rest ih =>
    cases hpart : part.index? with
    | none =>
      -- a literal text, or a number that is no machine word
      have hpieces (after : Option Char) : part.pieces before after = part.written.map .char := by
        rw [Part.pieces, hpart]
      rw [piecesOf, hpieces, text_expandPieces_chars, ih, mentioned_cons_none hpart, Functor.map_map]
      simp only [expansion, Part.filled_of_none hpart]
    | some i =>
      have hpieces (after : Option Char) : part.pieces before after = [.argument i (isDelimited before after)] := by
        rw [Part.pieces, hpart]
      rw [piecesOf, hpieces, List.singleton_append]
      cases harg : args[i]? with
      | none =>
        rw [text_expandPieces_missing harg, ih, mentioned_cons_missing hpart harg, Functor.map_map]
        simp only [expansion, Part.filled_of_missing hpart harg]
      | some arg =>
        cases hheld : held.lookup i with
        | some p =>
          -- what is held for the argument is held through the rest, which puts it at the front once more
          have hin (new : List (Nat × Phrase)) : (held ++ new).lookup i = some p := by
            rw [List.lookup_append, hheld]
            rfl
          rw [text_expandPieces_held harg hheld, ih, unwritten_mentioned_held hpart harg hheld, Functor.map_map]
          refine congrArg (· <$> _) (funext fun new => ?_)
          rw [expansion, Part.filled_of_lookup hpart harg (hin new), List.cons_append, textOf_front (hin new)]
        | none =>
          -- the first place: the argument is written before all others that are still to come
          have hin (p : Phrase) (new : List (Nat × Phrase)) : ((i, p) :: held ++ new).lookup i = some p :=
            List.lookup_cons_self
          rw [text_expandPieces_first harg hheld, unwritten_mentioned_first hpart harg hheld, List.mapM_cons, hold,
            map_bind, bind_assoc]
          refine congrArg (arg.write >>= ·) (funext fun p => ?_)
          rw [pure_bind, map_bind, ih, ← unwritten_cons i p, Functor.map_map]
          simp only [map_pure, textOf_append_hold hheld, expansion, Part.filled_of_lookup hpart harg (hin p _),
            bind_pure_comp]

/-! ### Arguments in the order of their places -/

/-- The arguments that have places are in the order of their first places. -/
theorem pairwise_mentioned (args : List Argument) (parts : List Part) :
    (mentioned args parts).Pairwise fun m m' =>
      (parts.filterMap Part.index?).idxOf m.1 < (parts.filterMap Part.index?).idxOf m'.1 := by
  refine (pairwise_idxOf_eraseDups (parts.filterMap Part.index?)).filterMap _ fun i j hlt m hm m' hm' => ?_
  obtain ⟨arg, -, rfl⟩ := Option.map_eq_some_iff.mp hm
  obtain ⟨arg', -, rfl⟩ := Option.map_eq_some_iff.mp hm'
  exact hlt

/-- An argument is mentioned if a part has its index. -/
private theorem mem_mentioned {parts : List Part} {arg : Argument} :
    (i, arg) ∈ mentioned args parts ↔ args[i]? = some arg ∧ ∃ part ∈ parts, part.index? = some i := by
  have hplace : i ∈ (parts.filterMap Part.index?).eraseDups ↔ ∃ part ∈ parts, part.index? = some i := by
    rw [List.mem_eraseDups, List.mem_filterMap]
  constructor
  · intro h
    have harg := getElem?_of_mem_mentioned h
    obtain ⟨j, hj, hmap⟩ := List.mem_filterMap.mp h
    obtain ⟨_, _, heq⟩ := Option.map_eq_some_iff.mp hmap
    exact ⟨harg, hplace.mp ((Prod.mk.inj heq).1 ▸ hj)⟩
  · rintro ⟨harg, hpart⟩
    exact List.mem_filterMap.mpr ⟨i, hplace.mpr hpart, by rw [harg, Option.map_some]⟩

/-- **A template is expanded part by part.** The arguments that have places are written, each once and in the order of
their first places, and then what stands for the template is what stands for its parts.

**Proof sketch.** By induction on the parts, with what has been written so far: the first place of an argument writes
it, and later places take what is held of it. The arguments that are mentioned are listed in the order of their first
places, so their numbers differ. -/
theorem expand_ofParts (args : List Argument) (parts : List Part) :
    Phrase.text <$> expand (ofParts parts) args =
      (fun held => expansion args (textOf held) none parts) <$> (mentioned args parts).mapM hold ∧
    ((mentioned args parts).map (·.1)).Nodup ∧
    (∀ i arg, (i, arg) ∈ mentioned args parts ↔ args[i]? = some arg ∧ ∃ part ∈ parts, part.index? = some i) ∧
    (mentioned args parts).Pairwise fun m m' =>
      (parts.filterMap Part.index?).idxOf m.1 < (parts.filterMap Part.index?).idxOf m'.1 := by
  refine ⟨?_, ?_, fun i arg => mem_mentioned, pairwise_mentioned args parts⟩
  · have hunwritten : unwritten [] (mentioned args parts) = mentioned args parts :=
      List.filter_eq_self.mpr fun _ _ => rfl
    rw [expand, pieces_ofParts, text_expandPieces, hunwritten]
    rfl
  · refine List.pairwise_map.mpr ((pairwise_mentioned args parts).imp fun {m m'} hlt => ?_)
    intro hsame
    rw [hsame] at hlt
    exact Nat.lt_irrefl _ hlt

example : Phrase.text <$> expand "IF(\x7b0\x7d>0,\x7b0\x7d,\x7b7\x7d)" [⟨0, pure (.ofText "a+b")⟩] =
    pure "IF((a+b)>0,a+b,NULL)" := rfl

/-- The number after the last machine word. -/
def longNumber : Part := .place "18446744073709551616".toList (by decide) (List.all_eq_true.mp rfl)

/-- A number that is no machine word stands for itself, although there is no such argument. -/
theorem long_number_stands :
    ([⟨atomPrecedence, pure (.ofText "a")⟩] : List Argument)[2 ^ 64]? = none ∧
    Phrase.text <$> expand (ofParts [longNumber]) [⟨atomPrecedence, pure (.ofText "a")⟩] =
      pure "\x7b18446744073709551616\x7d" ∧
    Phrase.text <$> expand (ofParts [longNumber]) [⟨atomPrecedence, pure (.ofText "a")⟩] ≠ pure "NULL" := by
  refine ⟨rfl, rfl, fun hnull => ?_⟩
  have hrun : (Except.ok ("\x7b18446744073709551616\x7d", {}) : Except SqlError (String × Parameters)) =
      .ok ("NULL", {}) :=
    congrArg (fun w : Writing String => w.run {}) hnull
  exact absurd (congrArg Prod.fst (Except.ok.inj hrun)) (by decide)

end LambdaSql.Template
