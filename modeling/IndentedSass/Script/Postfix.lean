import IndentedSass.Script.Token

/-!
# Postfix order

Tokens are brought into postfix order, where every operator stands behind its operands. Operators
wait on a stack until one that binds less tightly, a closing parenthesis or a further value makes
room for them. Values that stand side by side form a list, which binds loosest of all.
-/

namespace IndentedSass.Script

/-- What waits on the stack: an operator, or a parenthesis that is still open. -/
inductive Pending where
  | paren
  | op (o : Operator)
  deriving DecidableEq, Repr

/-- The state of the reordering: what waits, innermost first, what is out already, last first, and
whether the last token ended an operand. -/
structure Yard where
  stack : List Pending
  out : List Token
  afterOperand : Bool

namespace Yard

/-- Nothing read yet. -/
def start : Yard := ⟨[], [], false⟩

/-- Moves the operators that wait inside the innermost open parenthesis to the output. -/
def flush (out : List Token) : List Pending → List Pending × List Token
  | .op o :: stack => flush (.operator o :: out) stack
  | stack => (stack, out)

/-- Whether a waiting operator goes out before the binary operator `op` comes in. -/
def goesBefore (op : Binary) (waiting : Operator) : Bool :=
  !(waiting.precedence < op.precedence ||
    waiting.precedence == op.precedence && op.groupsRight)

/-- Moves the waiting operators that bind at least as tightly as `op` to the output. -/
def release (op : Binary) (out : List Token) : List Pending → List Pending × List Token
  | .op o :: stack =>
    if goesBefore op o then release op (.operator o :: out) stack else (.op o :: stack, out)
  | stack => (stack, out)

/-- Ends the list element before a token that starts a new one. -/
def separate (y : Yard) (t : Token) : Yard :=
  match y.afterOperand, t with
  | true, .operator _ | true, .rparen | false, _ => y
  | true, _ =>
    let (stack, out) := flush y.out y.stack
    { y with stack, out }

/-- Takes in one token. -/
def step (y : Yard) (t : Token) : Except Fault Yard :=
  let y := y.separate t
  match t with
  | .lparen => .ok ⟨.paren :: y.stack, y.out, false⟩
  | .rparen =>
    match flush y.out y.stack with
    | (.paren :: stack, out) => .ok ⟨stack, out, true⟩
    | _ => .error (.of .unmatchedParen "unmatched )")
  | .operator (.unary o) => .ok ⟨.op (.unary o) :: y.stack, y.out, false⟩
  | .operator (.binary o) =>
    let (stack, out) := release o y.out y.stack
    .ok ⟨.op (.binary o) :: stack, out, false⟩
  | operand => .ok ⟨y.stack, operand :: y.out, true⟩

/-- Takes in all tokens. -/
def run : Yard → List Token → Except Fault Yard
  | y, [] => .ok y
  | y, t :: rest =>
    match y.step t with
    | .ok y => run y rest
    | .error fault => .error fault

/-- The output once nothing more comes in. -/
def finish (y : Yard) : Except Fault (List Token) :=
  match flush y.out y.stack with
  | ([], out) => .ok out.reverse
  | _ => .error (.of .unmatchedParen "unmatched (")

end Yard

/-- The tokens of an expression in postfix order. -/
def postfixOrder (tokens : List Token) : Except Fault (List Token) :=
  match Yard.run .start tokens with
  | .ok y => y.finish
  | .error fault => .error fault

/-- The tokens of a text in postfix order. -/
def parse (s : Text) : Except Fault (List Token) := do
  let tokens ← Token.ofText s
  postfixOrder tokens

end IndentedSass.Script
