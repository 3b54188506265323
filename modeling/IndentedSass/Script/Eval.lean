import IndentedSass.Script.Postfix
import IndentedSass.Script.Function

/-!
# Evaluation

The value of an expression in a context that knows its variables. `evaluate` first splices the
interpolations `#{…}` of a text and then evaluates each of its parts between commas. A spliced value
is not searched for interpolations again, and each recursive step works on a shorter text, so
evaluation always ends: with a value, with a fault, or because a text would be too long.
-/

namespace IndentedSass.Script
open Ascii

/-- What an expression may refer to: the values of variables and the palette for colours. -/
structure Context where
  lookup : Text → Option Value
  palette : Palette

/-! ## Postfix expressions -/

/-- The value of an operand token, where `eval` evaluates the arguments of functions. -/
def Token.value (ctx : Context) (eval : Text → Except Halt Value) : Token → Except Halt Value
  | .literal v => .ok v
  | .variable name =>
    match ctx.lookup name with
    | some v => .ok v
    | none => .error (.of .undefinedVariable ("undefined variable " ++ name.quoted))
  | .function name args => call ctx.palette eval name args
  | _ => .ok .empty

/-- The fault of an operator that lacks operands. -/
def tooFewOperands (op : Operator) (count : Nat) : Fault :=
  .of .arityMismatch (op.symbol ++ " expects " ++ Text.ofNat op.arity ++ " operands, got " ++
    Text.ofNat count)

/-- The values on the stack after one token, the last one first. -/
def evalToken (ctx : Context) (eval : Text → Except Halt Value) (stack : List Value) :
    Token → Except Halt (List Value)
  | .operator (.unary op) =>
    match stack with
    | a :: rest => do return (← (op.apply a).mapError .fault) :: rest
    | [] => .error (.fault (tooFewOperands (.unary op) 0))
  | .operator (.binary op) =>
    match stack with
    | b :: a :: rest => do return (← op.apply ctx.palette a b) :: rest
    | stack => .error (.fault (tooFewOperands (.binary op) stack.length))
  | .lparen | .rparen => .ok stack
  | operand => do return (← operand.value ctx eval) :: stack

/-- The values on the stack after all tokens. -/
def evalTokens (ctx : Context) (eval : Text → Except Halt Value) :
    (stack : List Value) → List Token → Except Halt (List Value)
  | stack, [] => .ok stack
  | stack, t :: rest =>
    match evalToken ctx eval stack t with
    | .ok stack => evalTokens ctx eval stack rest
    | .error halt => .error halt

/-- Several values as one: a single value is itself, more become a list separated by spaces. -/
def spaced (palette : Palette) : List Value → Value
  | [] => .empty
  | [v] => v
  | values => .string (Text.join " " (values.map (Value.text palette))) false

/-- The value of an expression in postfix order. -/
def evalPostfix (ctx : Context) (eval : Text → Except Halt Value) (tokens : List Token) :
    Except Halt Value :=
  (evalTokens ctx eval [] tokens).map fun stack => spaced ctx.palette stack.reverse

/-! ## Texts -/

/-- The value of a text without interpolations and top level commas. The arguments of a function
are proper parts of its text, so the test on their length always holds. -/
def evaluateOne (ctx : Context) (s : Text) : Except Halt Value :=
  match parse s with
  | .error fault => .error (.fault fault)
  | .ok tokens =>
    evalPostfix ctx
      (fun arg => if _h : arg.length < s.length then evaluateOne ctx arg else .ok .empty) tokens
termination_by s.length

/-- The values of several texts, from left to right. -/
def evaluateAll (ctx : Context) : List Text → Except Halt (List Value)
  | [] => .ok []
  | s :: rest => do
    let v ← evaluateOne ctx s
    let more ← evaluateAll ctx rest
    return v :: more

/-- The value of a text without interpolations: that of its only part, or the list of the parts
between top level commas. -/
def evaluateParts (ctx : Context) (s : Text) : Except Halt Value :=
  match splitTopLevel comma s with
  | [part] => evaluateOne ctx part
  | parts => do
    let values ← evaluateAll ctx parts
    return .string (Text.join ", " (values.map (Value.text ctx.palette))) false

/-- The parts of a text before and after the brace that closes it, `depth` further braces being
open. -/
def closingBrace? : (depth : Nat) → Text → Option (Text × Text)
  | _, [] => none
  | depth, c :: s =>
    if c == lbrace then (closingBrace? (depth + 1) s).map fun (inner, rest) => (c :: inner, rest)
    else if c == rbrace then
      match depth with
      | 0 => some ([], s)
      | depth + 1 => (closingBrace? depth s).map fun (inner, rest) => (c :: inner, rest)
    else (closingBrace? depth s).map fun (inner, rest) => (c :: inner, rest)

/-- The mark that opens an interpolation. -/
def opening : Text := [hashSign, lbrace]

theorem length_of_map_cons {o : Option (Text × Text)} {c : UInt8} {s inner rest : Text}
    (ih : ∀ i, o = some (i, rest) → s.length = i.length + rest.length + 1)
    (h : o.map (fun (inner, rest) => (c :: inner, rest)) = some (inner, rest)) :
    (c :: s).length = inner.length + rest.length + 1 := by
  obtain ⟨⟨i, r⟩, ho, hr⟩ := Option.map_eq_some_iff.1 h
  obtain ⟨rfl, rfl⟩ := Prod.mk.inj hr
  have := ih i ho
  simp only [List.length_cons]
  omega

/-- Nothing is lost but the closing brace. -/
theorem length_of_closingBrace? {depth : Nat} {s inner rest : Text}
    (h : closingBrace? depth s = some (inner, rest)) :
    s.length = inner.length + rest.length + 1 := by
  induction s generalizing depth inner with
  | nil => simp [closingBrace?] at h
  | cons c s ih =>
    rw [closingBrace?.eq_def] at h
    dsimp only at h
    split at h
    · exact length_of_map_cons (fun _ => ih) h
    · split at h
      · cases depth with
        | zero =>
          obtain ⟨rfl, rfl⟩ := Prod.mk.inj (Option.some.inj h)
          simp
        | succ depth => exact length_of_map_cons (fun _ => ih) h
      · exact length_of_map_cons (fun _ => ih) h

/-- The text with every interpolation replaced by the plain text of its value. A backslash before
an interpolation keeps it from being one and goes away itself. -/
def interpolate (ctx : Context) (s : Text) : Except Halt Text :=
  match _h : Text.cut? opening s with
  | none => .ok s
  | some (before, after) =>
    if before.getLast? = some backslash then
      (interpolate ctx after).map fun rest => before.dropLast ++ opening ++ rest
    else
      match _hb : closingBrace? 0 after with
      | none =>
        .error (.of .unmatchedParen ("unterminated interpolation in " ++ s.quoted))
      | some (inner, after) =>
        match interpolate ctx inner with
        | .error halt => .error halt
        | .ok inner =>
          match evaluateParts ctx inner with
          | .error halt => .error halt
          | .ok v =>
            (interpolate ctx after).map fun rest => before ++ v.plainText ctx.palette ++ rest
termination_by s.length
decreasing_by
  all_goals
    have := Text.length_of_cut? _h
    have : opening.length = 2 := rfl
    first
    | have := length_of_closingBrace? _hb
      omega
    | omega

/-- The value of a text: interpolations first, then the parts between commas. -/
def evaluate (ctx : Context) (s : Text) : Except Halt Value := do
  let s ← interpolate ctx s
  evaluateParts ctx s

end IndentedSass.Script
