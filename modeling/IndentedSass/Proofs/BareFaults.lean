import IndentedSass.Expand
import IndentedSass.Source.Builder

/-!
# Faults that have no place yet

The parts of a sheet that evaluate expressions, resolve selectors, bind parameters or read the
header of a line do not know where they are used. The faults they raise are faults of the language,
possibly under tags, and leave the position open; whoever called them fills it in. `Outcome.Bare`
says so of a computation, and there is one lemma for each of these parts.
-/

namespace IndentedSass

/-- A fault of the language, tags aside, whose position is still open. -/
def Fault.IsBare (f : Fault) : Prop := f.pos? = some .none

namespace Fault

@[simp] theorem isBare_of (kind : Kind) (message : Text) : (Fault.of kind message).IsBare := rfl

@[simp] theorem isBare_language (kind : Kind) (message : Text) (cause : Option Fault) :
    (Fault.language kind message .none cause).IsBare := rfl

@[simp] theorem isBare_tagged (tag : Text) (f : Fault) :
    (Fault.tagged tag f).IsBare ↔ f.IsBare := Iff.rfl

/-- A fault that is placed gets its position if that was open. -/
theorem pos?_locate (pos : Position) (f : Fault) :
    (f.locate pos).pos? = f.pos?.map fun old => if old.isNone then pos else old := by
  induction f using locate.induct with
  | case1 tag cause ih =>
    rw [locate, pos?, ih, pos?]
  | case2 kind message old cause => rfl
  | case3 f hlanguage htagged =>
    cases f with
    | tagged tag cause => exact absurd rfl (hlanguage tag cause)
    | language kind message old cause => exact absurd rfl (htagged kind message old cause)
    | plain | invalid | notFound | merged => rfl

/-- A bare fault that is placed is where it was placed. -/
theorem IsBare.pos?_locate {f : Fault} (h : f.IsBare) (pos : Position) :
    (f.locate pos).pos? = some pos := by
  rw [Fault.pos?_locate, h]
  rfl

/-- A position is all that a fault gets from being placed. -/
theorem kind?_locate (pos : Position) (f : Fault) : (f.locate pos).kind? = f.kind? := by
  induction f using locate.induct with
  | case1 tag cause ih => rw [locate, kind?, ih, kind?]
  | case2 kind message old cause => rfl
  | case3 f hlanguage htagged =>
    rw [locate]
    · exact hlanguage
    · exact htagged

/-- Nor does the message of a fault change. -/
theorem message?_locate (pos : Position) (f : Fault) : (f.locate pos).message? = f.message? := by
  induction f using locate.induct with
  | case1 tag cause ih => rw [locate, message?, ih, message?]
  | case2 kind message old cause => rfl
  | case3 f hlanguage htagged =>
    rw [locate]
    · exact hlanguage
    · exact htagged

/-- A fault that has its place keeps it. -/
theorem pos?_locate_of_placed {f : Fault} {old : Position} (h : f.pos? = some old)
    (hold : old.isNone = false) (pos : Position) : (f.locate pos).pos? = some old := by
  rw [Fault.pos?_locate, h, Option.map_some, if_neg (Bool.eq_false_iff.mp hold)]

end Fault

/-- A fault whose position is still open, or a string that is too long indeed. -/
def Script.Halt.IsBare : Script.Halt → Prop
  | .fault f => f.IsBare
  | .overflow length => Script.Value.lengthLimit < length

namespace Script.Halt

@[simp] theorem isBare_fault (f : Fault) : (Halt.fault f).IsBare ↔ f.IsBare := Iff.rfl

@[simp] theorem isBare_overflow (length : Nat) :
    (Halt.overflow length).IsBare ↔ Value.lengthLimit < length := Iff.rfl

@[simp] theorem isBare_of (kind : Kind) (message : Text) : (Halt.of kind message).IsBare := rfl

@[simp] theorem isBare_tagged (tag : Text) (halt : Halt) :
    (halt.tagged tag).IsBare ↔ halt.IsBare := by
  cases halt <;> rfl

end Script.Halt

namespace Outcome
variable {ε α β : Type} {P : ε → Prop}

/-- If a computation ends early, then with something that has the property. -/
def EndsIn (P : ε → Prop) (x : Except ε α) : Prop := ∀ e, x = .error e → P e

/-- A computation all of whose faults are bare. -/
abbrev Bare (x : Except Fault α) : Prop := EndsIn Fault.IsBare x

/-- An evaluation all of whose faults are bare. -/
abbrev HaltsBare (x : Except Script.Halt α) : Prop := EndsIn Script.Halt.IsBare x

@[simp] theorem endsIn_ok (a : α) : EndsIn P (.ok a) := nofun

@[simp] theorem endsIn_pure (a : α) : EndsIn P (pure a : Except ε α) := nofun

@[simp] theorem endsIn_error (e : ε) : EndsIn P (.error e : Except ε α) ↔ P e := by
  constructor
  · exact fun h => h e rfl
  · rintro h _ ⟨⟩
    exact h

@[simp] theorem endsIn_throw (e : ε) : EndsIn P (throw e : Except ε α) ↔ P e := endsIn_error e

/-- What is done in sequence ends early as the first part does that ends early. -/
theorem EndsIn.bind {x : Except ε α} {f : α → Except ε β} (h : EndsIn P x)
    (hf : ∀ a, EndsIn P (f a)) : EndsIn P (x >>= f) := by
  cases x with
  | ok a => exact hf a
  | error e => exact (endsIn_error _).2 ((endsIn_error _).1 h)

theorem EndsIn.map {x : Except ε α} (h : EndsIn P x) (f : α → β) : EndsIn P (x.map f) := by
  cases x with
  | ok a => exact endsIn_ok _
  | error e => exact (endsIn_error _).2 ((endsIn_error _).1 h)

/-- What ends in bare faults does so as part of an evaluation. -/
theorem Bare.halts {x : Except Fault α} (h : Bare x) : HaltsBare (x.mapError .fault) := by
  cases x with
  | ok a => exact endsIn_ok a
  | error f => exact (endsIn_error _).2 ((endsIn_error f).1 h)

end Outcome

open Outcome

/-! ## Expressions -/

namespace Script

/-- A literal is at fault for its unit or for its digits. -/
theorem Number.bare_ofText (s : Text) : Bare (Number.ofText s) := by
  simp only [Number.ofText]
  split
  · simp
  · split <;> simp

/-- Two numbers with units that do not go together are at fault. -/
theorem Number.bare_align (n other : Number) : Bare (n.align other) := by
  simp only [Number.align]
  split
  · simp
  · split
    · simp
    · split <;> simp

theorem Number.bare_inUnit (n : Number) (unit : Text) : Bare (n.inUnit unit) :=
  (Number.bare_align _ n).bind fun _ => endsIn_pure _

theorem Number.isBare_notUnitless (n : Number) : n.notUnitless.IsBare := rfl

/-- A number with a unit is no integer, nor is one with a fraction. -/
theorem Number.bare_toInt (n : Number) : Bare n.toInt := by
  simp only [Number.toInt]
  split
  · exact (endsIn_error _).2 n.isBare_notUnitless
  · split <;> simp

/-- A calculation may fail to align its numbers, and may divide by zero. -/
theorem Number.bare_calculate (op : Number.Op) (n other : Number) :
    Bare (n.calculate op other) := by
  refine (n.bare_align other).bind fun r => ?_
  cases op with
  | add | sub | mul => exact endsIn_pure _
  | div | mod =>
    dsimp only
    split
    · exact ((endsIn_throw _).2 (Fault.isBare_of _ _)).bind fun _ => endsIn_pure _
    · exact endsIn_pure _

theorem Colour.bare_apply (op : Colour.ChannelOp) (a b : Float) : Bare (op.apply a b) := by
  cases op with
  | div | mod =>
    rw [Colour.ChannelOp.apply]
    split <;> simp
  | add | sub | mul | bitAnd | bitOr | bitXor => exact endsIn_ok _

/-- Colours are combined channel by channel, and each channel may be divided by zero. -/
theorem Colour.bare_combine (op : Colour.ChannelOp) (c c' : Colour) :
    Bare (Colour.combine op c c') := by
  cases c with
  | transparent => exact endsIn_ok _
  | rgb r g b =>
    cases c' with
    | transparent => exact endsIn_ok _
    | rgb r' g' b' =>
      exact (Colour.bare_apply op r r').bind fun _ => (Colour.bare_apply op g g').bind fun _ =>
        (Colour.bare_apply op b b').bind fun _ => endsIn_pure _

namespace Value

@[simp] theorem isBare_unsupported (symbol : Text) (a : Value) :
    (unsupported symbol a).IsBare := rfl

@[simp] theorem isBare_inapplicable (symbol left : Text) (b : Value) :
    (inapplicable symbol left b).IsBare := rfl

@[simp] theorem isBare_incomparable (left : Text) (b : Value) : (incomparable left b).IsBare := rfl

/-- A number cannot be compared with every value, nor combined with every one. -/
theorem bare_applyNumber (op : Binary) (n : Number) (b : Value) : Bare (applyNumber op n b) := by
  simp only [applyNumber]
  split
  · split
    · exact (n.bare_align _).bind fun _ => endsIn_pure _
    · split <;> simp
  · split
    · exact (n.bare_calculate _ _).map _
    · split
      · exact (Colour.bare_combine _ _ _).map _
      · simp
    · simp
  · simp

theorem bare_shift (left : Bool) (c : Colour) (b : Value) : Bare (shift left c b) := by
  simp only [shift]
  split
  · split <;> simp
  · simp

/-- Colours have no order, and are shifted by numbers without a unit only. -/
theorem bare_applyColour (op : Binary) (c : Colour) (b : Value) : Bare (applyColour op c b) := by
  simp only [applyColour]
  split
  · split
    · exact (Colour.bare_combine _ _ _).map _
    · exact (Colour.bare_combine _ _ _).map _
    · simp
  · split <;> simp
  · split
    · exact bare_shift _ _ _
    · exact bare_shift _ _ _
    · simp

/-- A repetition that ends early does so for a negative number, or with a length that is too long
indeed. -/
theorem bare_repeated (s : Text) (times : Int) : HaltsBare (repeated s times) := by
  rw [repeated]
  split
  · simp
  · split
    · rename_i hlong
      rw [Bool.and_eq_true, decide_eq_true_iff, decide_eq_true_iff] at hlong
      exact (endsIn_error _).2 hlong.2
    · simp

/-- A string can be compared, repeated, joined and cut. Only a repetition can be too long. -/
theorem bare_applyString (palette : Palette) (op : Binary) (s : Text) (isQuoted : Bool)
    (b : Value) : HaltsBare (applyString palette op s isQuoted b) := by
  simp only [applyString]
  split
  · split
    · simp
    · split <;> simp
  · split
    · exact (Number.bare_toInt _).halts.bind fun times =>
        (bare_repeated s times).bind fun _ => endsIn_pure _
    · simp
  · split
    · exact (Number.bare_toInt _).halts.bind fun _ => endsIn_pure _
    · simp
  · simp

theorem bare_applyBoolean (op : Binary) (x : Bool) (b : Value) : Bare (applyBoolean op x b) := by
  simp only [applyBoolean]
  split <;> simp

end Value

theorem Unary.bare_apply (op : Unary) (a : Value) : Bare (op.apply a) := by
  cases op with
  | not => exact endsIn_ok _
  | negate | invert =>
    unfold Unary.apply
    dsimp only
    split <;> simp

/-- **Operators raise bare faults.** What an operator does is up to its left operand, but for those
that take every value. -/
theorem Binary.bare_apply (palette : Palette) (op : Binary) (a b : Value) :
    HaltsBare (op.apply palette a b) := by
  rw [Binary.apply.eq_def]
  split
  · simp
  · simp
  · simp
  · simp
  · cases a with
    | number n => exact (Value.bare_applyNumber op n b).halts
    | colour c => exact (Value.bare_applyColour op c b).halts
    | string s isQuoted => exact Value.bare_applyString palette op s isQuoted b
    | boolean x => exact (Value.bare_applyBoolean op x b).halts

namespace Builtin

theorem bare_expectNumber (v : Value) : Bare (expectNumber v) := by
  cases v <;> simp [expectNumber]

@[simp] theorem isBare_badChannel (i : Nat) (reason : Text) : (badChannel i reason).IsBare := rfl

/-- A channel is a percentage or a number up to 255, and has no other unit. -/
theorem bare_channel (i : Nat) (v : Value) : Bare (channel i v) := by
  refine (bare_expectNumber v).bind fun n => ?_
  split
  · split
    · exact ((endsIn_throw _).2 (isBare_badChannel _ _)).bind fun _ => endsIn_pure _
    · exact endsIn_pure _
  · split
    · split
      · exact ((endsIn_throw _).2 (isBare_badChannel _ _)).bind fun _ => endsIn_pure _
      · exact endsIn_pure _
    · simp

theorem bare_fromHsl (h s l : Float) : Bare (fromHsl h s l) := by
  simp only [fromHsl]
  split
  · simp
  · split <;> simp

theorem bare_onNumber (f : Float → Float) (args : List Value) : Bare (onNumber f args) := by
  cases args with
  | nil => exact endsIn_ok _
  | cons v args => exact (bare_expectNumber v).bind fun _ => endsIn_pure _

/-- **Functions raise bare faults** for arguments that are no numbers or out of range. -/
theorem bare_apply (f : Builtin) (args : List Value) : Bare (f.apply args) := by
  rw [apply.eq_def]
  split
  · exact (bare_channel 0 _).bind fun _ => (bare_channel 1 _).bind fun _ =>
      (bare_channel 2 _).bind fun _ => endsIn_pure _
  · exact (bare_expectNumber _).bind fun _ => (bare_expectNumber _).bind fun _ =>
      (bare_expectNumber _).bind fun _ => (bare_fromHsl _ _ _).bind fun _ => endsIn_pure _
  · refine (bare_expectNumber _).bind fun n => ?_
    split
    · exact ((endsIn_throw _).2 n.isBare_notUnitless).bind fun _ => endsIn_pure _
    · exact endsIn_pure _
  · exact bare_onNumber _ _
  · exact bare_onNumber _ _
  · exact bare_onNumber _ _
  · exact bare_onNumber _ _
  · exact endsIn_ok _

end Builtin

/-- The name of the function comes in front as a tag, which leaves the position open. -/
theorem bare_inFunction {α : Type} (name : Text) {x : Except Halt α} (h : HaltsBare x) :
    HaltsBare (inFunction name x) := by
  cases x with
  | ok a => exact endsIn_ok a
  | error halt => exact (endsIn_error _).2 ((halt.isBare_tagged _).2 ((endsIn_error halt).1 h))

section Calls
variable {eval : Text → Except Halt Value} {args : List Text}

/-- The arguments of an unknown function are passed on as they are, if they cannot be evaluated for
a reason that does not matter there. -/
theorem bare_passedArguments (palette : Palette) (verbatim : Bool)
    (heval : ∀ arg ∈ args, HaltsBare (eval arg)) :
    HaltsBare (passedArguments palette eval verbatim args) := by
  induction args with
  | nil => exact endsIn_ok _
  | cons raw rest ih =>
    have more := ih fun arg harg => heval arg (List.mem_cons_of_mem _ harg)
    rw [passedArguments]
    split
    · exact (endsIn_ok raw).bind fun _ => more.bind fun _ => endsIn_pure _
    · cases hraw : eval raw with
      | ok v => exact (endsIn_ok _).bind fun _ => more.bind fun _ => endsIn_pure _
      | error halt =>
        have first : halt.IsBare := heval raw List.mem_cons_self halt hraw
        dsimp only
        split
        · exact (endsIn_ok raw).bind fun _ => more.bind fun _ => endsIn_pure _
        · exact ((endsIn_error halt).2 first).bind fun _ => more.bind fun _ => endsIn_pure _

theorem bare_argumentValues (name : Text) (heval : ∀ arg ∈ args, HaltsBare (eval arg)) :
    HaltsBare (argumentValues name eval args) := by
  induction args with
  | nil => exact endsIn_ok _
  | cons raw rest ih =>
    have more := ih fun arg harg => heval arg (List.mem_cons_of_mem _ harg)
    exact (bare_inFunction name (heval raw List.mem_cons_self)).bind fun _ =>
      more.bind fun _ => endsIn_pure _

/-- A call evaluates its arguments before it applies the function, and it may have too few or too
many. -/
theorem bare_call (palette : Palette) (name : Text) (heval : ∀ arg ∈ args, HaltsBare (eval arg)) :
    HaltsBare (call palette eval name args) := by
  rw [call]
  split
  · split
    · simp
    · exact (bare_argumentValues name heval).bind fun values =>
        bare_inFunction name (Builtin.bare_apply _ values).halts
  · exact (bare_passedArguments palette _ heval).bind fun _ => endsIn_pure _

end Calls

/-! ### Tokens -/

namespace Token

@[simp] theorem isBare_unterminated (s : Text) : (unterminated s).IsBare := rfl

/-- A parenthesis may be left open, and so may a string before it is closed. -/
theorem bare_closingParen (whole : Text) (depth skip : Nat) (s : Text) :
    Bare (closingParen whole depth skip s) := by
  fun_induction closingParen whole depth skip s with
  | case1 => simp
  | case2 _ _ _ _ ih => exact ih.map _
  | case3 => simp
  | case4 _ _ _ _ _ _ ih => exact ih.map _
  | case5 _ _ _ _ _ ih => exact ih.map _
  | case6 => simp
  | case7 _ _ _ _ _ _ ih => exact ih.map _
  | case8 _ _ _ _ _ _ ih => exact ih.map _

theorem bare_numberLexeme (s : Text) (n : Nat) : Bare (numberLexeme s n) :=
  (Number.bare_ofText _).bind fun _ => endsIn_pure _

theorem bare_colourLexeme (s : Text) : Bare (colourLexeme s) := by
  simp only [colourLexeme]
  split <;> simp

theorem bare_stringLexeme (s : Text) : Bare (stringLexeme s) := by
  rw [stringLexeme]
  split <;> simp

theorem bare_wordLexeme (s : Text) (n : Nat) : Bare (wordLexeme s n) := by
  simp only [wordLexeme]
  split
  · simp
  · exact (bare_closingParen _ _ _ _).bind fun _ => endsIn_pure _
  · simp

theorem bare_signLexeme (expectOperand : Bool) (s : Text) : Bare (signLexeme expectOperand s) := by
  rw [signLexeme]
  split <;> simp

/-- Every kind of lexeme that can be read has its own way to fail. -/
theorem bare_lexeme (expectOperand free : Bool) (c : UInt8) (s : Text) :
    Bare (lexeme expectOperand free c s) := by
  rw [lexeme]
  split
  · exact bare_numberLexeme _ _
  split
  · exact bare_numberLexeme _ _
  split
  · exact bare_colourLexeme _
  split
  · exact bare_stringLexeme _
  split
  · exact endsIn_ok _
  split
  · exact bare_wordLexeme _ _
  split
  · exact endsIn_ok _
  split
  · exact endsIn_ok _
  · exact bare_signLexeme _ _

/-- The induction is on the text that is left, of which each lexeme takes the beginning. -/
theorem bare_scan (expectOperand gap : Bool) (skip : Nat) (s : Text) :
    Bare (scan expectOperand gap skip s) := by
  fun_induction scan expectOperand gap skip s with
  | case1 => exact endsIn_ok _
  | case2 _ _ _ _ _ ih => exact ih
  | case3 _ _ _ _ _ ih => exact ih
  | case4 _ _ _ _ _ fault hlexeme => exact (endsIn_error fault).2 (bare_lexeme _ _ _ _ _ hlexeme)
  | case5 _ _ _ _ _ _ _ ih => exact ih
  | case6 _ _ _ _ _ _ _ _ ih => exact ih.map _

end Token

theorem Yard.bare_step (y : Yard) (t : Token) : Bare (y.step t) := by
  simp only [Yard.step]
  split
  · simp
  · split <;> simp
  · simp
  · simp
  · simp

/-- The induction is on the tokens, with the yard as it is after each. -/
theorem Yard.bare_run (y : Yard) (ts : List Token) : Bare (y.run ts) := by
  induction ts generalizing y with
  | nil => exact endsIn_ok y
  | cons t rest ih =>
    rw [Yard.run]
    cases hstep : y.step t with
    | ok y' => exact ih y'
    | error f => exact (endsIn_error f).2 (y.bare_step t f hstep)

/-- **Parsing raises bare faults**, for a token that cannot be read or a parenthesis without a
partner. -/
theorem bare_parse (s : Text) : Bare (parse s) := by
  refine (Token.bare_scan true false 0 s).bind fun tokens => ?_
  rw [postfixOrder]
  cases hrun : Yard.run .start tokens with
  | ok y =>
    show Bare y.finish
    rw [Yard.finish]
    split <;> simp
  | error f => exact (endsIn_error f).2 (Yard.bare_run _ tokens f hrun)

/-! ### Evaluation -/

section Evaluation
variable (ctx : Context)

/-- A value may be undefined, and an operator may find too few operands on the stack. -/
theorem bare_evalToken {eval : Text → Except Halt Value} (heval : ∀ arg, HaltsBare (eval arg))
    (stack : List Value) (t : Token) : HaltsBare (evalToken ctx eval stack t) := by
  have value (t : Token) : HaltsBare (t.value ctx eval) := by
    cases t with
    | «variable» name =>
      rw [Token.value]
      split <;> simp
    | function name args => exact bare_call _ _ fun arg _ => heval arg
    | literal v => exact endsIn_ok v
    | operator | lparen | rparen => exact endsIn_ok _
  rw [evalToken.eq_def]
  split
  · split
    · exact (Unary.bare_apply _ _).halts.bind fun _ => endsIn_pure _
    · simp [tooFewOperands]
  · split
    · exact (Binary.bare_apply _ _ _ _).bind fun _ => endsIn_pure _
    · simp [tooFewOperands]
  · simp
  · simp
  · exact (value _).bind fun _ => endsIn_pure _

theorem bare_evalTokens {eval : Text → Except Halt Value} (heval : ∀ arg, HaltsBare (eval arg))
    (stack : List Value) (ts : List Token) : HaltsBare (evalTokens ctx eval stack ts) := by
  induction ts generalizing stack with
  | nil => exact endsIn_ok stack
  | cons t rest ih =>
    rw [evalTokens]
    cases htoken : evalToken ctx eval stack t with
    | ok stack' => exact ih stack'
    | error halt => exact (endsIn_error halt).2 (bare_evalToken ctx heval stack t halt htoken)

/-- The induction is on the length of the text, as the arguments of functions are shorter. -/
theorem bare_evaluateOne (s : Text) : HaltsBare (evaluateOne ctx s) := by
  induction hlength : s.length using Nat.strongRecOn generalizing s with
  | ind n ih =>
    rw [evaluateOne]
    cases hparse : parse s with
    | error f => exact (endsIn_error _).2 (bare_parse s f hparse)
    | ok tokens =>
      refine (bare_evalTokens ctx (fun arg => ?_) [] tokens).map _
      split
      · rename_i hshorter
        exact ih arg.length (hlength ▸ hshorter) arg rfl
      · exact endsIn_ok _

/-- The parts of a list are evaluated one after the other. -/
theorem bare_evaluateParts (s : Text) : HaltsBare (evaluateParts ctx s) := by
  have all (parts : List Text) : HaltsBare (evaluateAll ctx parts) := by
    induction parts with
    | nil => exact endsIn_ok _
    | cons part rest ih =>
      exact (bare_evaluateOne ctx part).bind fun _ => ih.bind fun _ => endsIn_pure _
  rw [evaluateParts]
  split
  · exact bare_evaluateOne ctx _
  · exact (all _).bind fun _ => endsIn_pure _

/-- What is interpolated is interpolated itself first, so the induction follows the nesting. -/
theorem bare_interpolate (s : Text) : HaltsBare (interpolate ctx s) := by
  fun_induction interpolate ctx s with
  | case1 => exact endsIn_ok _
  | case2 _ _ _ _ _ ih => exact ih.map _
  | case3 => simp
  | case4 _ _ _ _ _ _ _ _ halt hinner ih => exact (endsIn_error halt).2 (ih halt hinner)
  | case5 _ _ _ _ _ _ _ _ inner _ halt hvalue _ =>
    exact (endsIn_error halt).2 (bare_evaluateParts ctx inner halt hvalue)
  | case6 _ _ _ _ _ _ _ _ _ _ _ _ _ ih => exact ih.map _

/-- **Expressions raise bare faults.** -/
theorem bare_evaluate (s : Text) : HaltsBare (evaluate ctx s) :=
  (bare_interpolate ctx s).bind fun text => bare_evaluateParts ctx text

end Evaluation

end Script

/-! ## Parts of statements -/

namespace Expand
open Script

/-- A selector may refer to a parent that is not there. -/
theorem bare_selectorLine (ctx : Context) (parents : List Text) (ss : List Text) :
    HaltsBare (selectorLine ctx parents ss) := by
  have resolve (s : Text) : Bare (Selector.resolve parents s) := by
    rw [Selector.resolve]
    split
    · split <;> simp
    · split <;> simp
  induction ss with
  | nil => exact endsIn_ok _
  | cons s rest ih =>
    exact (bare_interpolate ctx s).bind fun s => (resolve s).halts.bind fun _ =>
      ih.bind fun _ => endsIn_pure _

theorem bare_selectorLines (ctx : Context) (parents : List Text) (lines : List (List Text)) :
    HaltsBare (selectorLines ctx parents lines) := by
  induction lines with
  | nil => exact endsIn_ok _
  | cons line rest ih =>
    exact (bare_selectorLine ctx parents line).bind fun _ => ih.bind fun _ => endsIn_pure _

theorem bare_propertyValue (ctx : Context) (value : Text) (script : Bool) :
    HaltsBare (propertyValue ctx value script) := by
  rw [propertyValue]
  split
  · exact (bare_evaluate ctx value).map _
  · exact bare_interpolate ctx value

/-- An argument is evaluated for the caller, and a default in the scope that is being filled. Either
may fail, and gets the name of the mixin as a tag. -/
theorem bare_bindParams (palette : Palette) (m : Mixin) (caller scope : Scope)
    (params : List Param) (args : List Text) :
    HaltsBare (bindParams palette m caller scope params args) := by
  fun_induction bindParams palette m caller scope params args with
  | case1 => exact endsIn_ok _
  | case2 _ _ _ arg _ _ _ ih => exact ih
  | case3 _ _ _ arg _ halt hvalue =>
    exact (endsIn_error _).2 ((halt.isBare_tagged _).2
      (bare_evaluate (caller.context palette) arg halt hvalue))
  | case4 => simp
  | case5 _ _ _ _ _ _ _ ih => exact ih
  | case6 scope _ _ expr _ halt hvalue =>
    exact (endsIn_error _).2 ((halt.isBare_tagged _).2
      (bare_evaluate (scope.context palette) expr halt hvalue))

/-- A mixin may be undefined, or get more arguments than it has parameters. -/
theorem bare_enterMixin (palette : Palette) (scope : Scope) (name : Text) (args : List Text) :
    HaltsBare (enterMixin palette scope name args) := by
  rw [enterMixin]
  split
  · simp
  · split
    · simp
    · exact (bare_bindParams _ _ _ _ _ _).bind fun _ => endsIn_pure _

theorem bare_number (ctx : Context) (s : Text) : HaltsBare (number ctx s) := by
  refine (bare_evaluate ctx s).bind fun v => ?_
  cases v <;> simp

/-- The bounds and the step of a loop are numbers with units that go together, and the step is not
zero. -/
theorem bare_span (ctx : Context) (first bound step : Text) (inclusive : Bool) :
    HaltsBare (span ctx first bound step inclusive) := by
  refine (bare_number ctx first).bind fun a => (bare_number ctx bound).bind fun b =>
    (bare_number ctx step).bind fun c => (b.bare_inUnit _).halts.bind fun b =>
    (c.bare_inUnit _).halts.bind fun c => ?_
  split
  · exact ((endsIn_throw _).2 (Halt.isBare_of _ _)).bind fun _ => endsIn_pure _
  · exact endsIn_pure _

end Expand

/-! ## Reading a line -/

namespace Source

@[simp] theorem isBare_malformed (l : Line) (what : Text) : (malformed l what).IsBare := rfl

/-- Nothing may be nested beneath a leaf. -/
theorem bare_leaf (l : Line) (rest : List Line) (what : Text) (s : Statement) :
    Bare (leaf l rest what s) := by
  rw [leaf]
  split <;> simp

theorem bare_comment (l : Line) (rest : List Line) : Bare (comment l rest) := by
  rw [comment]
  dsimp only
  split <;> simp

/-- A branch must follow a choice that is still open. -/
theorem bare_otherwise (l : Line) (rest : List Line) (before : Option Statement) :
    Bare (otherwise l rest before) := by
  rw [otherwise]
  split
  · simp
  · split
    · split <;> simp
    · simp

/-- A directive that the builder knows is malformed, or has something nested beneath it. -/
theorem bare_directive (l : Line) (rest : List Line) (before : Option Statement) :
    Bare (directive l rest before) := by
  rw [directive]
  split
  · simp
  dsimp only
  split
  · split
    · simp
    · exact bare_leaf _ _ _ _
  split
  · split <;> simp
  split
  · split <;> simp
  split
  · exact bare_otherwise _ _ _
  split
  · split <;> simp
  split <;> simp

/-- A parameter without a default may not follow one that has a default. -/
theorem bare_params (mixin : Text) (optional : Bool) (raws : List Text) :
    Bare (params mixin optional raws) := by
  induction raws generalizing optional with
  | nil => exact endsIn_ok _
  | cons raw rest ih =>
    rw [params]
    split
    · simp
    · split
      · simp
      · exact (ih _).bind fun _ => endsIn_pure _

/-- A mixin is defined at the outermost level. -/
theorem bare_mixin (l : Line) (rest : List Line) : Bare (mixin l rest) := by
  rw [mixin]
  split
  · simp
  · split
    · simp
    · exact (bare_params _ _ _).bind fun _ => endsIn_pure _

theorem bare_call (l : Line) (rest : List Line) : Bare (call l rest) := by
  rw [call]
  split
  · simp
  · exact bare_leaf _ _ _ _

theorem bare_assign (l : Line) (rest : List Line) : Bare (assign l rest) := by
  rw [assign]
  split
  · simp
  · exact bare_leaf _ _ _ _

/-- A declaration does not stand at the outermost level. -/
theorem bare_property (l : Line) (rest : List Line) (d : Header.Declaration) :
    Bare (property l rest d) := by
  rw [property]
  split <;> simp

/-- The induction is on the lines that follow, since a comma at the end of a line calls for the
next. -/
theorem bare_selectorLines (level : Nat) (text : Text) (rest : List Line) :
    Bare (selectorLines level text rest) := by
  induction rest generalizing text with
  | nil =>
    rw [selectorLines]
    split <;> simp
  | cons next rest ih =>
    rw [selectorLines]
    split
    · split
      · exact ih text
      · split
        · exact (ih _).bind fun _ => endsIn_pure _
        · simp
    · simp

/-- **Reading a line raises bare faults.** -/
theorem bare_classify (way : PropertySyntax) (l : Line) (rest : List Line)
    (before : Option Statement) : Bare (classify way l rest before) := by
  rw [classify]
  split
  · exact bare_comment l rest
  · exact bare_directive l rest before
  · exact bare_mixin l rest
  · exact bare_call l rest
  · exact bare_assign l rest
  · exact bare_assign l rest
  · split
    · exact bare_property l rest _
    · exact (bare_selectorLines _ _ _).bind fun _ => endsIn_pure _

end Source

end IndentedSass
