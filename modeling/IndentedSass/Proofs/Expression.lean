import IndentedSass.Script.Eval
import Mathlib.Data.List.Forall2

/-!
# What a written expression means

An expression is a tree of operands and operators. `Written` says how such a tree may be written as
tokens: parentheses stand where the precedence and the grouping of operators need them, and may
stand anywhere else. Trees written side by side form a list.

The module shows that postfix order recovers the trees and that running it gives their values, as
the recursive `Expr.value` defines them:

* `Yard.run_written`: a written tree leaves operators waiting that bind at least as tightly as its
  level, above whatever the stack held before;
* `Yard.run_row`: values side by side flush what waits, so the trees of a row come out one after
  the other;
* `evalTokens_postOrder`: the operand stack receives the value of each tree, or the run ends with
  the first fault from the left.
-/

namespace IndentedSass.Script

/-! ## Trees -/

/-- An operand of an expression. -/
inductive Operand where
  | literal (v : Value)
  | reference (name : Text)
  | call (name : Text) (args : List Text)

namespace Operand

/-- The token of an operand. -/
def token : Operand → Token
  | .literal v => .literal v
  | .reference name => .variable name
  | .call name args => .function name args

/-- The value of an operand, where `eval` evaluates the arguments of functions. -/
def value (ctx : Context) (eval : Text → Except Halt Value) : Operand → Except Halt Value
  | .literal v => .ok v
  | .reference name =>
    match ctx.lookup name with
    | some v => .ok v
    | none => .error (.of .undefinedVariable ("undefined variable " ++ name.quoted))
  | .call name args => Script.call ctx.palette eval name args

end Operand

/-- An expression. -/
inductive Expr where
  | operand (o : Operand)
  | unary (op : Unary) (e : Expr)
  | binary (op : Binary) (left right : Expr)

namespace Expr

/-- The tokens of a tree, every operator behind its operands. -/
def postOrder : Expr → List Token
  | operand o => [o.token]
  | unary op e => e.postOrder ++ [.operator (.unary op)]
  | binary op left right => left.postOrder ++ (right.postOrder ++ [.operator (.binary op)])

/-- The value of a tree: operands from left to right, then the operator. Both operands are always
evaluated, and the first that has no value ends the evaluation. -/
def value (ctx : Context) (eval : Text → Except Halt Value) : Expr → Except Halt Value
  | operand o => o.value ctx eval
  | unary op e => do
    let a ← e.value ctx eval
    (op.apply a).mapError .fault
  | binary op left right => do
    let a ← left.value ctx eval
    let b ← right.value ctx eval
    op.apply ctx.palette a b

/-- The value of trees side by side: that of a single tree, or else the texts of all values with
spaces between them. -/
def rowValue (ctx : Context) (eval : Text → Except Halt Value) : List Expr → Except Halt Value
  | [e] => e.value ctx eval
  | es => do
    let values ← es.mapM (value ctx eval)
    return .string (Text.join " " (values.map (Value.text ctx.palette))) false

end Expr

/-- A precedence above that of every binary operator. -/
def tight : Nat := 10

theorem Binary.precedence_lt_tight (op : Binary) : op.precedence < tight := by
  cases op <;> decide

/-- Operators of one precedence group to the same side. -/
theorem Binary.groupsRight_congr {op other : Binary} (h : op.precedence = other.precedence) :
    op.groupsRight = other.groupsRight := by
  revert h
  cases op <;> cases other <;> decide

/-- How a tree may be written where only binary operators of precedence `level` and above may
stand outside parentheses. A unary operator is written in parentheses of its own, in front of an
operand token or of something in parentheses. -/
inductive Written : Nat → Expr → List Token → Prop
  | operand (level : Nat) (o : Operand) : Written level (.operand o) [o.token]
  | parens {e : Expr} {ts : List Token} (level : Nat) (inner : Written 0 e ts) :
    Written level e (.lparen :: (ts ++ [.rparen]))
  | unary {e : Expr} {ts : List Token} (level : Nat) (op : Unary) (inner : Written tight e ts) :
    Written level (.unary op e) (.lparen :: .operator (.unary op) :: (ts ++ [.rparen]))
  | left {level : Nat} {op : Binary} {l r : Expr} {ls rs : List Token}
    (group : op.groupsRight = false) (fits : level ≤ op.precedence)
    (first : Written op.precedence l ls) (second : Written (op.precedence + 1) r rs) :
    Written level (.binary op l r) (ls ++ .operator (.binary op) :: rs)
  | right {level : Nat} {op : Binary} {l r : Expr} {ls rs : List Token}
    (group : op.groupsRight = true) (fits : level ≤ op.precedence)
    (first : Written (op.precedence + 1) l ls) (second : Written op.precedence r rs) :
    Written level (.binary op l r) (ls ++ .operator (.binary op) :: rs)

/-- What is written never starts with an operator or a closing parenthesis. -/
theorem Written.starts {level : Nat} {e : Expr} {ts : List Token} (h : Written level e ts) :
    ∃ t rest, ts = t :: rest ∧ (t = .lparen ∨ ∃ o : Operand, t = o.token) := by
  induction h with
  | operand level o => exact ⟨_, [], rfl, Or.inr ⟨o, rfl⟩⟩
  | parens level inner => exact ⟨_, _, rfl, Or.inl rfl⟩
  | unary level op inner => exact ⟨_, _, rfl, Or.inl rfl⟩
  | left group fits first second ihl _ | right group fits first second ihl _ =>
    obtain ⟨t, rest, rfl, ht⟩ := ihl
    exact ⟨t, _, rfl, ht⟩

/-! ## The yard -/

namespace Yard

/-- Operators on the stack, innermost first. -/
def waiting (ops : List Operator) : List Pending := ops.map .op

/-- Operators that went to the output from the top of the stack, last first. -/
def released (ops : List Operator) : List Token := (ops.map .operator).reverse

@[simp] theorem waiting_nil : waiting [] = [] := rfl

@[simp] theorem released_nil : released [] = [] := rfl

@[simp] theorem released_append (ops more : List Operator) :
    released (ops ++ more) = released more ++ released ops := by
  simp [released]

theorem flush_waiting (ops : List Operator) (out : List Token) (stack : List Pending) :
    flush out (waiting ops ++ stack) = flush (released ops ++ out) stack := by
  induction ops generalizing out with
  | nil => rfl
  | cons o ops ih =>
    rw [show waiting (o :: ops) ++ stack = .op o :: (waiting ops ++ stack) from rfl, flush, ih]
    simp [released]

theorem release_waiting {op : Binary} {ops : List Operator}
    (h : ∀ o ∈ ops, goesBefore op o = true) (out : List Token) (stack : List Pending) :
    release op out (waiting ops ++ stack) = release op (released ops ++ out) stack := by
  induction ops generalizing out with
  | nil => rfl
  | cons o ops ih =>
    rw [show waiting (o :: ops) ++ stack = .op o :: (waiting ops ++ stack) from rfl, release,
      if_pos (h o List.mem_cons_self), ih fun o' ho' => h o' (List.mem_cons_of_mem o ho')]
    simp [released]

/-- No binary operator of precedence `level` and above moves the top of the stack. -/
def Holds (level : Nat) (stack : List Pending) : Prop :=
  ∀ o rest, stack = .op o :: rest → ∀ op : Binary, level ≤ op.precedence →
    goesBefore op o = false

theorem holds_nil (level : Nat) : Holds level [] := by
  intro o rest h
  cases h

theorem holds_paren (level : Nat) (stack : List Pending) : Holds level (.paren :: stack) := by
  intro o rest h
  cases h

/-- Above a unary operator there is only room for what no binary operator takes apart. -/
theorem holds_unary (op : Unary) (stack : List Pending) :
    Holds tight (.op (.unary op) :: stack) := by
  intro o rest _ other hlevel
  exact absurd other.precedence_lt_tight (Nat.not_lt.mpr hlevel)

theorem holds_left (op : Binary) (stack : List Pending) :
    Holds (op.precedence + 1) (.op (.binary op) :: stack) := by
  intro o rest h other hlevel
  obtain ⟨rfl, rfl⟩ := List.cons.inj h |>.imp (fun h => Pending.op.inj h) id
  have hlt : op.precedence < other.precedence := hlevel
  simp [goesBefore, Operator.precedence, hlt]

theorem holds_right {op : Binary} (group : op.groupsRight = true) (stack : List Pending) :
    Holds op.precedence (.op (.binary op) :: stack) := by
  intro o rest h other hlevel
  obtain ⟨rfl, rfl⟩ := List.cons.inj h |>.imp (fun h => Pending.op.inj h) id
  rcases Nat.lt_or_eq_of_le hlevel with hlt | heq
  · simp [goesBefore, Operator.precedence, hlt]
  · have hright : other.groupsRight = true := Binary.groupsRight_congr heq ▸ group
    simp [goesBefore, Operator.precedence, heq, hright]

theorem release_holds {level : Nat} {op : Binary} {stack : List Pending}
    (hstack : Holds level stack) (hlevel : level ≤ op.precedence) (out : List Token) :
    release op out stack = (stack, out) := by
  cases stack with
  | nil => rfl
  | cons p stack =>
    cases p with
    | paren => rfl
    | op o => rw [release, hstack o stack rfl op hlevel]; rfl

/-! ### Steps -/

theorem run_append (y : Yard) (ts us : List Token) :
    y.run (ts ++ us) = (y.run ts).bind fun y => y.run us := by
  induction ts generalizing y with
  | nil => rfl
  | cons t ts ih =>
    rw [List.cons_append, run, run]
    cases y.step t with
    | ok y => exact ih y
    | error fault => rfl

theorem step_operand (o : Operand) (stack : List Pending) (out : List Token) :
    step ⟨stack, out, false⟩ o.token = .ok ⟨stack, o.token :: out, true⟩ := by
  cases o <;> rfl

theorem step_lparen (stack : List Pending) (out : List Token) :
    step ⟨stack, out, false⟩ .lparen = .ok ⟨.paren :: stack, out, false⟩ := rfl

theorem step_unary (op : Unary) (stack : List Pending) (out : List Token) (after : Bool) :
    step ⟨stack, out, after⟩ (.operator (.unary op)) =
      .ok ⟨.op (.unary op) :: stack, out, false⟩ := by
  cases after <;> rfl

/-- A binary operator sends what binds tightly enough to the output and waits itself. -/
theorem step_binary {op : Binary} {ops : List Operator} {level : Nat} {stack : List Pending}
    (hops : ∀ o ∈ ops, goesBefore op o = true) (hstack : Holds level stack)
    (hlevel : level ≤ op.precedence) (out : List Token) :
    step ⟨waiting ops ++ stack, out, true⟩ (.operator (.binary op)) =
      .ok ⟨.op (.binary op) :: stack, released ops ++ out, false⟩ := by
  simp only [step, separate, release_waiting hops, release_holds hstack hlevel]

/-- A closing parenthesis empties the stack down to its partner. -/
theorem step_rparen (ops : List Operator) (stack : List Pending) (out : List Token) :
    step ⟨waiting ops ++ .paren :: stack, out, true⟩ .rparen =
      .ok ⟨stack, released ops ++ out, true⟩ := by
  simp only [step, separate, flush_waiting, flush]

/-- A token that starts an operand ends the list element before it. -/
theorem step_separated {t : Token} (ht : t = .lparen ∨ ∃ o : Operand, t = o.token)
    (ops : List Operator) (out : List Token) :
    step ⟨waiting ops, out, true⟩ t = step ⟨[], released ops ++ out, false⟩ t := by
  have hflush : flush out (waiting ops) = ([], released ops ++ out) := by
    rw [← List.append_nil (waiting ops), flush_waiting]
    rfl
  rcases ht with rfl | ⟨o, rfl⟩
  · simp only [step, separate, hflush]
  · cases o <;> simp only [Operand.token, step, separate, hflush]

/-! ### Runs -/

/-- The operands of a binary operator, put together: both runs with the operator's step between
them. -/
theorem run_binary {level : Nat} {op : Binary} {l r : Expr} {ls rs : List Token}
    {stack : List Pending} {out lout rout : List Token} {lops rops : List Operator}
    (fits : level ≤ op.precedence)
    (hl : run ⟨stack, out, false⟩ ls = .ok ⟨waiting lops ++ stack, lout, true⟩)
    (hlout : released lops ++ lout = l.postOrder.reverse ++ out)
    (hop : step ⟨waiting lops ++ stack, lout, true⟩ (.operator (.binary op)) =
      .ok ⟨.op (.binary op) :: stack, released lops ++ lout, false⟩)
    (hr : run ⟨.op (.binary op) :: stack, released lops ++ lout, false⟩ rs =
      .ok ⟨waiting rops ++ .op (.binary op) :: stack, rout, true⟩)
    (hrout : released rops ++ rout = r.postOrder.reverse ++ (released lops ++ lout))
    (hrops : ∀ o ∈ rops, op.precedence ≤ o.precedence) :
    ∃ ops out', run ⟨stack, out, false⟩ (ls ++ .operator (.binary op) :: rs) =
        .ok ⟨waiting ops ++ stack, out', true⟩ ∧
      released ops ++ out' = (Expr.binary op l r).postOrder.reverse ++ out ∧
      ∀ o ∈ ops, level ≤ o.precedence := by
  refine ⟨rops ++ [.binary op], rout, ?_, ?_, ?_⟩
  · simp only [run_append, hl, Except.bind, run, hop, hr]
    simp [waiting]
  · rw [released_append, List.append_assoc, hrout, hlout]
    simp [released, Expr.postOrder]
  · intro o ho
    rcases List.mem_append.mp ho with ho | ho
    · exact Nat.le_trans fits (hrops o ho)
    · rw [List.mem_singleton.mp ho]
      exact fits

/-- **A written tree goes through the yard as a whole.** Above the stack it finds, it leaves
operators waiting that bind at least as tightly as its level; released after the output, they
complete its post-order. -/
theorem run_written {level : Nat} {e : Expr} {ts : List Token} (h : Written level e ts) :
    ∀ (stack : List Pending) (out : List Token), Holds level stack →
      ∃ ops out', run ⟨stack, out, false⟩ ts = .ok ⟨waiting ops ++ stack, out', true⟩ ∧
        released ops ++ out' = e.postOrder.reverse ++ out ∧
        ∀ o ∈ ops, level ≤ o.precedence := by
  induction h with
  | operand level o =>
    intro stack out _
    refine ⟨[], o.token :: out, ?_, rfl, fun o ho => nomatch ho⟩
    rw [run, step_operand]
    rfl
  | parens level inner ih =>
    intro stack out _
    -- nothing passes the parenthesis, so the stack below it does not matter
    obtain ⟨ops, out', hrun, hout, -⟩ := ih (.paren :: stack) out (holds_paren 0 stack)
    refine ⟨[], released ops ++ out', ?_, hout, fun o ho => nomatch ho⟩
    rw [run, step_lparen]
    simp only [run_append, hrun, Except.bind, run, step_rparen, waiting_nil, List.nil_append]
  | @unary e ts level op inner ih =>
    intro stack out _
    -- the operator waits below its operand and leaves with it at the closing parenthesis
    obtain ⟨ops, out', hrun, hout, -⟩ :=
      ih (.op (.unary op) :: .paren :: stack) out (holds_unary op _)
    refine ⟨[], released (ops ++ [.unary op]) ++ out', ?_, ?_, fun o ho => nomatch ho⟩
    · rw [run, step_lparen]
      dsimp only
      rw [run, step_unary]
      have hstack : waiting ops ++ .op (.unary op) :: .paren :: stack =
          waiting (ops ++ [.unary op]) ++ .paren :: stack := by simp [waiting]
      simp only [run_append, hrun, hstack, Except.bind, run, step_rparen, waiting_nil,
        List.nil_append]
    · simp [released, Expr.postOrder, ← hout]
  | @left level op l r ls rs group fits first second ihl ihr =>
    intro stack out hstack
    -- everything that the left operand leaves waiting makes room for the operator
    have hbelow : Holds op.precedence stack := fun o rest he other hle =>
      hstack o rest he other (Nat.le_trans fits hle)
    obtain ⟨lops, lout, hl, hlout, hlops⟩ := ihl stack out hbelow
    have hgo : ∀ o ∈ lops, goesBefore op o = true := by
      intro o ho
      have := hlops o ho
      simp [goesBefore, group, this]
    obtain ⟨rops, rout, hr, hrout, hrops⟩ :=
      ihr (.op (.binary op) :: stack) (released lops ++ lout) (holds_left op stack)
    exact run_binary fits hl hlout (step_binary hgo hstack fits lout) hr hrout
      fun o ho => Nat.le_of_succ_le (hrops o ho)
  | @right level op l r ls rs group fits first second ihl ihr =>
    intro stack out hstack
    -- the left operand leaves only tighter operators: an equal one would stay where it is
    have hbelow : Holds (op.precedence + 1) stack := fun o rest he other hle =>
      hstack o rest he other (Nat.le_trans fits (Nat.le_of_succ_le hle))
    obtain ⟨lops, lout, hl, hlout, hlops⟩ := ihl stack out hbelow
    have hgo : ∀ o ∈ lops, goesBefore op o = true := by
      intro o ho
      have := hlops o ho
      simp [goesBefore]
      omega
    obtain ⟨rops, rout, hr, hrout, hrops⟩ :=
      ihr (.op (.binary op) :: stack) (released lops ++ lout) (holds_right group stack)
    exact run_binary fits hl hlout (step_binary hgo hstack fits lout) hr hrout hrops

/-- Each tree of a row ends the one before it, and the last one is ended by the end. -/
theorem run_row {es : List Expr} {pieces : List (List Token)}
    (h : List.Forall₂ (Written 0) es pieces) (ops : List Operator) (out : List Token) :
    ∃ ops' out', run ⟨waiting ops, out, true⟩ pieces.flatten = .ok ⟨waiting ops', out', true⟩ ∧
      released ops' ++ out' = (es.flatMap Expr.postOrder).reverse ++ (released ops ++ out) := by
  induction h generalizing ops out with
  | nil => exact ⟨ops, out, rfl, rfl⟩
  | @cons e ts es pieces he _ ih =>
    obtain ⟨eops, eout, hrun, hout, -⟩ := run_written he [] (released ops ++ out) (holds_nil 0)
    obtain ⟨ops', out', hrest, hout'⟩ := ih eops eout
    refine ⟨ops', out', ?_, ?_⟩
    · obtain ⟨t, rest, rfl, ht⟩ := he.starts
      rw [run] at hrun
      rw [List.flatten_cons, run_append, run, step_separated ht, hrun]
      simpa [Except.bind] using hrest
    · rw [hout', hout]
      simp

/-- At the start nothing waits, so it does not matter that no operand came before. -/
theorem run_start {es : List Expr} {pieces : List (List Token)} (hne : es ≠ [])
    (h : List.Forall₂ (Written 0) es pieces) :
    run start pieces.flatten = run ⟨waiting [], [], true⟩ pieces.flatten := by
  cases h with
  | nil => exact absurd rfl hne
  | cons he _ =>
    obtain ⟨t, rest, rfl, ht⟩ := he.starts
    rw [List.flatten_cons, List.cons_append, run, run, step_separated ht]
    rfl

theorem finish_waiting (ops : List Operator) (out : List Token) (after : Bool) :
    finish ⟨waiting ops, out, after⟩ = .ok (released ops ++ out).reverse := by
  rw [finish, ← List.append_nil (waiting ops), flush_waiting]
  rfl

end Yard

/-! ## Evaluating -/

section Evaluation
variable (ctx : Context) (eval : Text → Except Halt Value)

theorem evalToken_operand (o : Operand) (stack : List Value) :
    evalToken ctx eval stack o.token = (o.value ctx eval).map (· :: stack) := by
  cases o with
  | literal v => rfl
  | reference name =>
    simp only [Operand.token, evalToken, Token.value, Operand.value]
    cases ctx.lookup name <;> rfl
  | call name args =>
    simp only [Operand.token, evalToken, Token.value, Operand.value]
    cases Script.call ctx.palette eval name args <;> rfl

/-- **The operand stack receives the value of a tree**, or the run ends as the tree does. -/
theorem evalTokens_postOrder (e : Expr) (stack : List Value) (rest : List Token) :
    evalTokens ctx eval stack (e.postOrder ++ rest) =
      (e.value ctx eval).bind fun v => evalTokens ctx eval (v :: stack) rest := by
  induction e generalizing stack rest with
  | operand o =>
    rw [Expr.postOrder, List.singleton_append, evalTokens, evalToken_operand, Expr.value]
    cases o.value ctx eval <;> rfl
  | unary op e ih =>
    rw [Expr.postOrder, List.append_assoc, ih, Expr.value]
    cases e.value ctx eval with
    | error fault => rfl
    | ok a =>
      simp only [Except.bind, List.singleton_append, evalTokens, evalToken]
      show _ = ((op.apply a).mapError _).bind _
      cases op.apply a <;> rfl
  | binary op left right ihl ihr =>
    rw [Expr.postOrder, List.append_assoc, ihl, Expr.value]
    cases left.value ctx eval with
    | error fault => rfl
    | ok a =>
      show evalTokens ctx eval (a :: stack) _ = ((right.value ctx eval).bind _).bind _
      rw [List.append_assoc, ihr]
      cases right.value ctx eval with
      | error fault => rfl
      | ok b =>
        simp only [Except.bind, List.singleton_append, evalTokens, evalToken]
        show _ = (op.apply ctx.palette a b).bind _
        cases op.apply ctx.palette a b <;> rfl

theorem evalTokens_row (es : List Expr) (stack : List Value) :
    evalTokens ctx eval stack (es.flatMap Expr.postOrder) =
      (es.mapM (Expr.value ctx eval)).map fun values => values.reverse ++ stack := by
  induction es generalizing stack with
  | nil => rfl
  | cons e es ih =>
    rw [List.flatMap_cons, evalTokens_postOrder, List.mapM_cons]
    cases e.value ctx eval with
    | error fault => rfl
    | ok v =>
      show evalTokens ctx eval (v :: stack) (es.flatMap Expr.postOrder) = _
      rw [ih]
      show _ = ((es.mapM (Expr.value ctx eval)).bind _).map _
      cases es.mapM (Expr.value ctx eval) with
      | error fault => rfl
      | ok values => simp [Except.map, Except.bind, pure, Except.pure]

theorem evalPostfix_row {es : List Expr} (hne : es ≠ []) :
    evalPostfix ctx eval (es.flatMap Expr.postOrder) = Expr.rowValue ctx eval es := by
  rw [evalPostfix, evalTokens_row]
  -- a single value stays as it is; only from two on are there texts to join
  rcases es with _ | ⟨e, _ | ⟨f, es⟩⟩
  · exact absurd rfl hne
  · rw [List.mapM_cons, Expr.rowValue]
    cases e.value ctx eval <;> rfl
  · show _ = ((e :: f :: es).mapM (Expr.value ctx eval)).bind _
    simp only [List.mapM_cons]
    cases e.value ctx eval with
    | error fault => rfl
    | ok a =>
      cases f.value ctx eval with
      | error fault => rfl
      | ok b =>
        show ((((es.mapM (Expr.value ctx eval)).bind _).bind _).map _).map _ =
          (((es.mapM (Expr.value ctx eval)).bind _).bind _).bind _
        cases es.mapM (Expr.value ctx eval) with
        | error fault => rfl
        | ok values => simp [Except.map, Except.bind, pure, Except.pure, spaced]

/-- **Written expressions mean what their trees mean.** Trees that are written side by side come out
in post-order, one after the other, and this evaluates to the value of the only tree or to the list
of the values. -/
theorem meaning_of_written {es : List Expr} {pieces : List (List Token)} (hne : es ≠ [])
    (h : List.Forall₂ (Written 0) es pieces) :
    postfixOrder pieces.flatten = .ok (es.flatMap Expr.postOrder) ∧
      evalPostfix ctx eval (es.flatMap Expr.postOrder) = Expr.rowValue ctx eval es := by
  refine ⟨?_, evalPostfix_row ctx eval hne⟩
  obtain ⟨ops, out, hrun, hout⟩ := Yard.run_row h [] []
  rw [postfixOrder, Yard.run_start hne h, hrun]
  show Yard.finish _ = _
  rw [Yard.finish_waiting, hout]
  simp

end Evaluation

/-- The row `x = (not "") = y (z)`: the operator groups to the right, and the parentheses around the
last word are redundant. -/
theorem meaning_of_written_pairs :
    postfixOrder [.literal (.string "x" false), .operator (.binary .pair), .lparen,
        .operator (.unary .not), .literal (.string [] true), .rparen, .operator (.binary .pair),
        .literal (.string "y" false), .lparen, .literal (.string "z" false), .rparen] =
      .ok [.literal (.string "x" false), .literal (.string [] true), .operator (.unary .not),
        .literal (.string "y" false), .operator (.binary .pair), .operator (.binary .pair),
        .literal (.string "z" false)] ∧
    evalPostfix ⟨fun _ => none, .html4⟩ (fun _ => .ok .empty)
        [.literal (.string "x" false), .literal (.string [] true), .operator (.unary .not),
          .literal (.string "y" false), .operator (.binary .pair), .operator (.binary .pair),
          .literal (.string "z" false)] =
      .ok (.string "x=true=y z" false) := by
  let x : Expr := .operand (.literal (.string "x" false))
  let e : Expr := .unary .not (.operand (.literal (.string [] true)))
  let y : Expr := .operand (.literal (.string "y" false))
  let z : Expr := .operand (.literal (.string "z" false))
  have hpairs : Written 0 (.binary .pair x (.binary .pair e y)) _ :=
    .right rfl (by decide) (.operand _ _)
      (.right rfl (by decide) (.unary _ _ (.operand _ _)) (.operand _ _))
  have hrow : List.Forall₂ (Written 0) [.binary .pair x (.binary .pair e y), z] _ :=
    .cons hpairs (.cons (.parens 0 (.operand 0 _)) .nil)
  obtain ⟨horder, hvalue⟩ := meaning_of_written ⟨fun _ => none, .html4⟩ (fun _ => .ok .empty)
    (List.cons_ne_nil _ _) hrow
  exact ⟨horder, hvalue⟩

end IndentedSass.Script
