/-!
# Documents

Structured documents: null, truth values, numbers, texts, arrays, and objects whose members are
kept in the order of their names.

## Main definitions

* `Document` - the type.
* `Document.insert`, `Document.find?` - the members of an object.
* `Document.ofMembers` - the object of a list of members, of which the last one of a name counts.
* `Document.merge` - one document laid over another.
-/

namespace LambdaSql

/-- A structured document. Whole numbers and floating-point numbers are different numbers. -/
inductive Document where
  | null
  | bool (b : Bool)
  | int (n : Int)
  | float (x : Float)
  | string (s : String)
  | array (items : List Document)
  | object (members : List (String × Document))
deriving Inhabited

namespace Document

mutual

/-- Whether two documents are the same; floating-point numbers are compared as numbers. -/
protected def beq : Document → Document → Bool
  | null, null => true
  | bool a, bool b => a == b
  | int a, int b => a == b
  | float a, float b => a == b
  | string a, string b => a == b
  | array a, array b => Document.beqItems a b
  | object a, object b => Document.beqMembers a b
  | _, _ => false

/-- Whether two lists of documents are the same. -/
protected def beqItems : List Document → List Document → Bool
  | [], [] => true
  | a :: as, b :: bs => Document.beq a b && Document.beqItems as bs
  | _, _ => false

/-- Whether two lists of members are the same. -/
protected def beqMembers : List (String × Document) → List (String × Document) → Bool
  | [], [] => true
  | (m, a) :: as, (n, b) :: bs => m == n && Document.beq a b && Document.beqMembers as bs
  | _, _ => false

end

instance : BEq Document := ⟨Document.beq⟩

/-- A floating-point number as a document; one that is not finite has none and becomes null. -/
def ofFloat (x : Float) : Document := if x.isFinite then float x else null

/-- The members of an object after one is added in its place, or replaced. -/
def insert (name : String) (value : Document) :
    List (String × Document) → List (String × Document)
  | [] => [(name, value)]
  | (n, v) :: rest =>
    if name < n then (name, value) :: (n, v) :: rest
    else if name = n then (name, value) :: rest
    else (n, v) :: insert name value rest

/-- The value of a member of an object. -/
def find? (name : String) (members : List (String × Document)) : Option Document :=
  members.lookup name

/-- The object of a list of members; the last member of a name counts. -/
def ofMembers (members : List (String × Document)) : Document :=
  object (members.foldl (fun acc m => insert m.1 m.2 acc) [])

mutual

/-- `base` with `upper` laid over it: objects are merged member by member, and any other document
takes the place of what it lies on. -/
def merge : Document → Document → Document
  | base, object upper =>
    match base with
    | object members => object (mergeMembers members upper)
    | _ => object upper
  | _, upper => upper

/-- The members of an object with others laid over them. -/
def mergeMembers (base : List (String × Document)) :
    List (String × Document) → List (String × Document)
  | [] => base
  | (name, value) :: rest =>
    let merged := match find? name base with
      | some old => merge old value
      | none => value
    mergeMembers (insert name merged base) rest

end

end Document

end LambdaSql
