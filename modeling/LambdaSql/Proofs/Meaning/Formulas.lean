import LambdaSql.Dialect.MySql
import LambdaSql.Proofs.Binding.Sketch
import LambdaSql.Proofs.Meaning.Interpretation

/-!
# Functions that are formulas

Some functions of the database are written as formulas: their templates consist of operators, choices and other
functions. A database computes what is written, so the value of such a function is that of any other node with the same
text, with the same values for the placeholders in it.

## Main definitions

* `Sketch.letters` - what is written, character by character.
* `Node.WrittenAlike` - two nodes are written alike.
* `Template.layout` - a template as texts with places between them.
* `Node.closed` - a node as an operand in a template.

## Main results

* `Template.letters_layout_cons` - what is written for a template.
* `Node.sketch_closed` - a place that does not stand alone is filled with a closed operand.
-/

namespace LambdaSql

/-! ## What is written -/

/-- What a mark stands for, character by character. -/
def Mark.letters : Mark → Sketch
  | .text s => s.toList.map fun c => .text (String.singleton c)
  | m => [m]

namespace Sketch

/-- What is written, character by character, with values where there are placeholders. -/
def letters (sk : Sketch) : Sketch := sk.flatMap Mark.letters

/-- The characters of a text. -/
def ofChars (cs : List Char) : Sketch := cs.map fun c => .text (String.singleton c)

/-- An empty sketch has no letters. -/
@[simp]
theorem letters_nil : letters [] = [] := rfl

/-- Sketches in turn are written in turn. -/
@[simp]
theorem letters_append (a b : Sketch) : letters (a ++ b) = letters a ++ letters b := List.flatMap_append

/-- A text is written character by character. -/
@[simp]
theorem letters_ofText (s : String) : letters (ofText s) = ofChars s.toList := by
  simp [letters, ofText, Mark.letters, ofChars]

/-- Letters are written as they are. -/
@[simp]
theorem letters_ofChars (cs : List Char) : letters (ofChars cs) = ofChars cs := by
  induction cs with
  | nil => rfl
  | cons c cs ih =>
    change Mark.letters (.text (String.singleton c)) ++ letters (ofChars cs) = _
    rw [ih, Mark.letters, String.toList_singleton]
    rfl

/-- Parentheses that are not needed are left out. -/
theorem parenthesisedIf_false (sk : Sketch) : sk.parenthesisedIf false = sk := rfl

end Sketch

/-- Two nodes are written alike: with the same characters, and with placeholders for the same values. -/
def Node.WrittenAlike (d : Dialect) (m n : Node) : Prop := (sketchNode d m).letters = (sketchNode d n).letters

/-! ## Templates -/

namespace Template

/-- A template as texts with places between them. -/
def layout (s : String) : List (Nat × Bool × String) → List Piece
  | [] => s.toList.map .char
  | (i, delimited, next) :: rest => s.toList.map .char ++ .argument i delimited :: layout next rest

/-- A template of single bytes has the layout that it is read as byte by byte. -/
theorem pieces_eq_layout {template s : String} {rest : List (Nat × Bool × String)}
    (h : isAscii template = true ∧ piecesFrom none none (bytewise template) = layout s rest) :
    pieces template = layout s rest :=
  (pieces_eq_bytewise h.1).trans h.2

variable {args : List (Nat × Sketch)}

/-- The characters of a template are written as they are. -/
theorem sketch_chars (cs : List Char) (rest : List Piece) :
    sketch args (cs.map .char ++ rest) = Sketch.ofChars cs ++ sketch args rest := by
  induction cs with
  | nil => rfl
  | cons c cs ih =>
    rw [List.map_cons, List.cons_append, sketch, ih]
    rfl

/-- The last text of a template is written as it is. -/
theorem letters_layout_nil (s : String) : (sketch args (layout s [])).letters = Sketch.ofChars s.toList := by
  have h := @sketch_chars args s.toList []
  rw [List.append_nil] at h
  rw [layout, h, sketch, List.append_nil, Sketch.letters_ofChars]

/-- **What is written for a template**: its first text, its first argument, in parentheses if these are needed, and what
is written for the rest. -/
theorem letters_layout_cons {i : Nat} {arg : Nat × Sketch} (h : args[i]? = some arg) (s next : String)
    (delimited : Bool) (rest : List (Nat × Bool × String)) :
    (sketch args (layout s ((i, delimited, next) :: rest))).letters =
      Sketch.ofChars s.toList ++ ((arg.2.parenthesisedIf (!delimited && arg.1 < atomPrecedence)).letters ++
        (sketch args (layout next rest)).letters) := by
  rw [layout, sketch_chars, sketch, h, Sketch.letters_append, Sketch.letters_append, Sketch.letters_ofChars]

end Template

/-! ## Operands -/

namespace Node

/-- A node as an operand in a template: in parentheses, if it does not hold together by itself. -/
def closed (n : Node) : Node := if n.precedence < atomPrecedence then .group n else n

/-- A place that needs parentheses is filled with a closed operand. -/
theorem sketch_closed (d : Dialect) (n : Node) :
    (sketchNode d n).parenthesisedIf (n.precedence < atomPrecedence) = sketchNode d n.closed := by
  unfold closed
  split
  · next h => simp [h, sketchNode, Sketch.parenthesisedIf]
  · next h => simp [h, Sketch.parenthesisedIf]

/-- A closed operand holds together by itself. -/
theorem le_precedence_closed (n : Node) : atomPrecedence ≤ n.closed.precedence := by
  unfold closed
  split
  · exact le_rfl
  · next h => exact not_lt.mp h

/-- A whole number is written with its digits. -/
theorem sketch_ofInt (d : Dialect) {n : Int64} {digits : String} (h : toString n.toInt = digits) :
    sketchNode d (.ofInt n) = .ofText digits := h ▸ rfl

/-- An operator between operands that bind more strongly is written without parentheses. -/
theorem sketch_binary (d : Dialect) (op : SqlOp) {l r : Node} (hl : op.precedence < l.precedence)
    (hr : op.precedence < r.precedence) (t : HostType) :
    sketchNode d (.binary op l r t) = sketchNode d l ++ .ofText op.text ++ sketchNode d r := by
  have hright : wrapsRight op r = false := by
    unfold wrapsRight
    simp [hr.not_gt, hr.ne']
  rw [sketchNode, decide_eq_false hl.not_gt, hright]
  rfl

variable {V : Type} (I : Interpretation V)

/-- Parentheses do not change a value. -/
@[simp]
theorem eval_closed (n : Node) : n.closed.eval I = n.eval I := by
  unfold closed
  split <;> rfl

end Node

end LambdaSql
