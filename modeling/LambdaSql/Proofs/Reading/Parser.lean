import LambdaSql.Proofs.Reading.Tree

/-!
# An operator-precedence parser

The parser takes one token after the other. It keeps what has been begun on a stack, and an operand
once one is complete. When an operator or the end of a part is met, whatever holds the operand more
strongly, or equally from the left, is closed first.

## Main definitions

* `Reading.Frame`, `Reading.closeUp` - what has been begun, and closing it.
* `Reading.step`, `Reading.parse` - the parser.

## Main results

* `Reading.parse_tokens` - the tokens of a settled tree are read as that tree.
-/

namespace LambdaSql.Reading

/-- What stands before a list. -/
inductive Heading where
  | isIn (operand : Tree) (negated : Bool)
  | call (name : String)

/-- A list with what stands before it. -/
def Heading.tree (items : List Tree) : Heading → Tree
  | isIn operand negated => .isIn operand items negated
  | call name => .call name items

/-- Something begun that needs an operand. -/
inductive Frame where
  | binary (o : Operator) (left : Tree)
  | unary (o : SqlUnaryOp)
  | group
  /-- A list with the items before, the last one first. -/
  | list (h : Heading) (before : List Tree)

/-- How strongly an operator on the stack holds its operand; none for what is closed by a token of
its own. -/
def Frame.level? : Frame → Option Nat
  | binary o _ => some o.level
  | unary o => some (unaryLevel o)
  | _ => none

/-- An operand with what holds it at least as strongly as a level closed around it. -/
def closeUp (level : Nat) : List Frame → Tree → List Frame × Tree
  | .binary o left :: stack, t =>
    if level ≤ o.level then closeUp level stack (.binary o left t) else (.binary o left :: stack, t)
  | .unary o :: stack, t =>
    if level ≤ unaryLevel o then closeUp level stack (.unary o t) else (.unary o :: stack, t)
  | stack, t => (stack, t)

/-- What the parser has read: the stack and, if there is one, a complete operand. -/
abbrev State := List Frame × Option Tree

/-- What is read where an operand is needed. -/
def stepBefore (stack : List Frame) : Token → Option State
  | .atom text => some (stack, some (.atom text))
  | .op (.of .sub) => some (.unary .negate :: stack, none)
  | .not => some (.unary .not :: stack, none)
  | .opening => some (.group :: stack, none)
  | .call name => some (.list (.call name) [] :: stack, none)
  | _ => none

/-- An item of a list, after which another one is needed. -/
def nextItem : List Frame × Tree → Option State
  | (.list h before :: stack, t) => some (.list h (t :: before) :: stack, none)
  | _ => none

/-- What a closing parenthesis makes of what it closes. -/
def closePart : List Frame × Tree → Option State
  | (.group :: stack, t) => some (stack, some (.group t))
  | (.list h before :: stack, t) => some (stack, some (h.tree (before.reverse ++ [t])))
  | _ => none

/-- What is read after an operand. -/
def stepAfter (stack : List Frame) (t : Tree) : Token → Option State
  | .op o =>
    let (stack, t) := closeUp o.level stack t
    some (.binary o t :: stack, none)
  | .isNull negated =>
    let (stack, t) := closeUp testLevel stack t
    some (stack, some (.isNull t negated))
  | .isIn negated =>
    let (stack, t) := closeUp testLevel stack t
    some (.list (.isIn t negated) [] :: stack, none)
  | .comma => nextItem (closeUp 0 stack t)
  | .closing => closePart (closeUp 0 stack t)
  | _ => none

/-- What the parser makes of a token. -/
def step : State → Token → Option State
  | (stack, none), token => stepBefore stack token
  | (stack, some t), token => stepAfter stack t token

/-- What the parser makes of several tokens. -/
def run (s : State) (ts : List Token) : Option State := ts.foldlM step s

/-- The tree of a sequence of tokens, if it is one. -/
def parse (ts : List Token) : Option Tree :=
  match run ([], none) ts with
  | some (stack, some t) =>
    match closeUp 0 stack t with
    | ([], t) => some t
    | _ => none
  | _ => none

/-! ## Settled trees -/

/-- The parser runs over two lists of tokens in turn. -/
theorem run_append (s : State) (ts us : List Token) :
    run s (ts ++ us) = (run s ts).bind fun s => run s us :=
  List.foldlM_append

/-- The parser takes the first token and runs over the others. -/
theorem run_cons (s : State) (t : Token) (ts : List Token) :
    run s (t :: ts) = (step s t).bind fun s => run s ts := rfl

/-- Whether what holds a tree on top of the stack leaves it whole. -/
def Accepts (stack : List Frame) (t : Tree) : Prop :=
  ∀ f rest level, stack = f :: rest → f.level? = some level → level < t.level

/-- Reading some tokens gives a tree, of which only the right edge may still be open. -/
def Reads (stack : List Frame) (ts : List Token) (t : Tree) : Prop :=
  ∃ open' last, run (stack, none) ts = some (open', some last) ∧
    ∀ level, level ≤ t.level → closeUp level open' last = closeUp level stack t

/-- Nothing is closed that holds an operand less strongly. -/
theorem closeUp_eq_self {stack : List Frame} {t u : Tree} {level : Nat} (h : Accepts stack t)
    (hl : t.level ≤ level) : closeUp level stack u = (stack, u) := by
  unfold closeUp
  split
  · next o left rest =>
    have := h _ _ _ rfl rfl
    rw [if_neg (by omega)]
  · next o rest =>
    have := h _ _ _ rfl rfl
    rw [if_neg (by omega)]
  · rfl

/-- What takes a tree takes one that holds together more strongly. -/
theorem Accepts.mono {stack : List Frame} {t u : Tree} (h : Accepts stack t)
    (hl : t.level ≤ u.level) : Accepts stack u := fun f rest level hs hf =>
  Nat.lt_of_lt_of_le (h f rest level hs hf) hl

/-- A binary operator takes a tree that binds more tightly. -/
private theorem accepts_binary {o : Operator} {left t : Tree} {stack : List Frame}
    (h : o.level < t.level) : Accepts (.binary o left :: stack) t := by
  rintro _ _ _ ⟨⟩ ⟨⟩
  exact h

/-- A unary operator takes a tree that binds more tightly. -/
private theorem accepts_unary {o : SqlUnaryOp} {t : Tree} {stack : List Frame}
    (h : unaryLevel o < t.level) : Accepts (.unary o :: stack) t := by
  rintro _ _ _ ⟨⟩ ⟨⟩
  exact h

/-- Within parentheses everything is taken. -/
theorem accepts_of_closed {f : Frame} (hf : f.level? = none) (t : Tree) (stack : List Frame) :
    Accepts (f :: stack) t := by
  rintro _ _ _ ⟨⟩ h
  rw [hf] at h
  cases h

mutual

/-- **A settled tree is read from its tokens**, whatever follows, under a stack that takes it.

**Proof sketch.** By induction on the tree. After a left operand its operator closes the operand's
right edge but nothing below, since the stack takes the whole tree; the right operand is then read
under the operator, which takes it. The right edge of the right operand stays open, and closing it
closes the operator as well. -/
theorem reads_tokens (stack : List Frame) : (t : Tree) → t.Settled → Accepts stack t →
    Reads stack t.tokens t
  | .atom text, _, _ => ⟨stack, .atom text, rfl, fun _ _ => rfl⟩
  | .binary o left right, h, ha => by
    obtain ⟨hl, hr, hsl, hsr⟩ := h
    obtain ⟨open₁, last₁, hrun₁, hclose₁⟩ := reads_tokens stack left hsl (ha.mono hl)
    obtain ⟨open₂, last₂, hrun₂, hclose₂⟩ :=
      reads_tokens (.binary o left :: stack) right hsr (accepts_binary hr)
    have hself : closeUp o.level stack left = (stack, left) := closeUp_eq_self ha (Nat.le_refl _)
    refine ⟨open₂, last₂, ?_, fun level hle => ?_⟩
    · rw [Tree.tokens, run_append, hrun₁, Option.bind_some, run_cons]
      simp only [step, stepAfter, hclose₁ _ hl, hself]
      exact hrun₂
    · rw [hclose₂ level (Nat.le_of_lt (Nat.lt_of_le_of_lt hle hr)), closeUp]
      exact if_pos hle
  | .unary o operand, h, ha => by
    obtain ⟨hl, hs⟩ := h
    obtain ⟨open₁, last₁, hrun₁, hclose₁⟩ :=
      reads_tokens (.unary o :: stack) operand hs (accepts_unary hl)
    refine ⟨open₁, last₁, ?_, fun level hle => ?_⟩
    · rw [Tree.tokens, run_cons]
      cases o <;> exact hrun₁
    · rw [hclose₁ level (Nat.le_of_lt (Nat.lt_of_le_of_lt hle hl)), closeUp]
      exact if_pos hle
  | .isNull operand negated, h, ha => by
    obtain ⟨hl, hs⟩ := h
    obtain ⟨open₁, last₁, hrun₁, hclose₁⟩ := reads_tokens stack operand hs (ha.mono hl)
    have hself : closeUp testLevel stack operand = (stack, operand) :=
      closeUp_eq_self ha (Nat.le_refl _)
    refine ⟨stack, .isNull operand negated, ?_, fun _ _ => rfl⟩
    rw [Tree.tokens, run_append, hrun₁, Option.bind_some, run_cons]
    simp only [step, stepAfter, hclose₁ _ hl, hself]
    rfl
  | .isIn operand items negated, h, ha => by
    obtain ⟨hl, hne, hs, hsi⟩ := h
    obtain ⟨open₁, last₁, hrun₁, hclose₁⟩ := reads_tokens stack operand hs (ha.mono hl)
    have hself : closeUp testLevel stack operand = (stack, operand) :=
      closeUp_eq_self ha (Nat.le_refl _)
    refine ⟨stack, .isIn operand items negated, ?_, fun _ _ => rfl⟩
    rw [Tree.tokens, run_append, hrun₁, Option.bind_some, run_cons]
    simp only [step, stepAfter, hclose₁ _ hl, hself]
    exact run_list stack (.isIn operand negated) [] items hne hsi
  | .call name args, h, ha => by
    refine ⟨stack, .call name args, ?_, fun _ _ => rfl⟩
    rw [Tree.tokens, run_cons]
    exact run_list stack (.call name) [] args h.1 h.2
  | .group inner, h, ha => by
    obtain ⟨open₁, last₁, hrun₁, hclose₁⟩ :=
      reads_tokens (.group :: stack) inner h (accepts_of_closed rfl _ _)
    refine ⟨stack, .group inner, ?_, fun _ _ => rfl⟩
    rw [Tree.tokens, run_cons]
    show run (.group :: stack, none) (inner.tokens ++ [.closing]) = _
    rw [run_append, hrun₁, Option.bind_some, run_cons]
    simp only [step, stepAfter, hclose₁ 0 (Nat.zero_le _)]
    rfl

/-- The items of a list are read up to the closing parenthesis. -/
theorem run_list (stack : List Frame) (h : Heading) (before : List Tree) :
    (items : List Tree) → items ≠ [] → Tree.AllSettled items →
      run (.list h before :: stack, none) (Tree.listTokens items ++ [.closing]) =
        some (stack, some (h.tree (before.reverse ++ items)))
  | [], hne, _ => absurd rfl hne
  | [t], _, hs => by
    obtain ⟨open₁, last₁, hrun₁, hclose₁⟩ :=
      reads_tokens (.list h before :: stack) t hs.1 (accepts_of_closed rfl _ _)
    rw [Tree.listTokens, run_append, hrun₁, Option.bind_some, run_cons]
    simp only [step, stepAfter, hclose₁ 0 (Nat.zero_le _)]
    rfl
  | t :: u :: rest, _, hs => by
    obtain ⟨open₁, last₁, hrun₁, hclose₁⟩ :=
      reads_tokens (.list h before :: stack) t hs.1 (accepts_of_closed rfl _ _)
    have ih := run_list stack h (t :: before) (u :: rest) nofun hs.2
    rw [Tree.listTokens, List.append_assoc, run_append, hrun₁, Option.bind_some, List.cons_append,
      run_cons]
    · simp only [step, stepAfter, hclose₁ 0 (Nat.zero_le _)]
      refine ih.trans ?_
      simp
    · exact nofun

end

/-- The tokens of a settled tree are read as that tree. -/
theorem parse_tokens {t : Tree} (h : t.Settled) : parse t.tokens = some t := by
  obtain ⟨open', last, hrun, hclose⟩ := reads_tokens [] t h nofun
  unfold parse
  rw [hrun]
  simp only [hclose 0 (Nat.zero_le _)]
  rfl

end LambdaSql.Reading
