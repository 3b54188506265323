import IndentedSass.Proofs.Expression
import Mathlib.Data.List.Perm.Basic

/-!
# Parentheses and postfix order

Postfix order takes any list of tokens, also one that is no expression: operators without operands,
operators side by side, lists inside parentheses. It fails for one reason only, parentheses without
a partner, and whenever it succeeds it has moved operators around and done nothing else.

Both follow from one invariant of the yard. `Yard.Accounts` relates what the yard holds to the
tokens it has taken in so far: the parentheses on its stack are those still open, stack and output
together hold every other token once, and the operands stand in the output as they came in.
-/

namespace IndentedSass.Script
open scoped List

namespace Token

/-- An opening parenthesis. -/
def isLparen : Token → Bool
  | .lparen => true
  | _ => false

/-- A closing parenthesis. -/
def isRparen : Token → Bool
  | .rparen => true
  | _ => false

/-- A parenthesis of either sort. -/
def isParen (t : Token) : Bool := t.isLparen || t.isRparen

/-- A literal, a variable or a function. -/
def isOperand : Token → Bool
  | .literal _ | .variable _ | .function _ _ => true
  | _ => false

/-- A token is a parenthesis, an operator or an operand. -/
theorem sort (t : Token) :
    t = .lparen ∨ t = .rparen ∨ (∃ o, t = .operator o) ∨ ∃ o : Operand, t = o.token := by
  cases t with
  | literal v => exact .inr (.inr (.inr ⟨.literal v, rfl⟩))
  | «variable» name => exact .inr (.inr (.inr ⟨.reference name, rfl⟩))
  | function name args => exact .inr (.inr (.inr ⟨.call name args, rfl⟩))
  | operator o => exact .inr (.inr (.inl ⟨o, rfl⟩))
  | lparen => exact .inl rfl
  | rparen => exact .inr (.inl rfl)

end Token

theorem Operand.isOperand_token (o : Operand) : o.token.isOperand = true := by
  cases o <;> rfl

/-- No prefix closes more parentheses than it opens, and the whole list closes all of them. -/
structure Balanced (ts : List Token) : Prop where
  opened : ∀ before, before <+: ts → before.countP Token.isRparen ≤ before.countP Token.isLparen
  closed : ts.countP Token.isLparen = ts.countP Token.isRparen

/-- `out` holds the tokens of `ts` but for the parentheses, with the operands in their order. -/
structure Rearranges (ts out : List Token) : Prop where
  bare : ∀ t ∈ out, t.isParen = false
  perm : out.Perm (ts.filter fun t => !t.isParen)
  operands : out.filter Token.isOperand = ts.filter Token.isOperand

namespace Yard

/-- The operators on the stack, as tokens. -/
def held (stack : List Pending) : List Token :=
  stack.filterMap fun p => match p with
    | .paren => none
    | .op o => some (.operator o)

@[simp] theorem held_nil : held [] = [] := rfl

@[simp] theorem held_paren (stack : List Pending) : held (.paren :: stack) = held stack := rfl

@[simp] theorem held_op (o : Operator) (stack : List Pending) :
    held (.op o :: stack) = .operator o :: held stack := rfl

theorem held_waiting (ops : List Operator) (stack : List Pending) :
    held (waiting ops ++ stack) = ops.map .operator ++ held stack := by
  induction ops with
  | nil => rfl
  | cons o ops ih => simpa [waiting] using ih

theorem count_paren_waiting (ops : List Operator) (stack : List Pending) :
    (waiting ops ++ stack).count .paren = stack.count .paren := by
  induction ops with
  | nil => rfl
  | cons o ops ih => simpa [waiting] using ih

theorem isOperand_released (ops : List Operator) :
    (released ops).filter Token.isOperand = [] := by
  rw [List.filter_eq_nil_iff]
  intro t ht
  obtain ⟨o, -, rfl⟩ := List.mem_map.1 (List.mem_reverse.1 ht)
  simp [Token.isOperand]

/-- Flushing moves operators from the stack to the output, down to a parenthesis or to the end. -/
theorem flush_moves (out : List Token) (stack : List Pending) :
    ∃ ops, stack = waiting ops ++ (flush out stack).1 ∧
      (flush out stack).2 = released ops ++ out ∧
      ((flush out stack).1 = [] ∨ ∃ rest, (flush out stack).1 = .paren :: rest) := by
  induction stack generalizing out with
  | nil => exact ⟨[], rfl, rfl, .inl rfl⟩
  | cons p stack ih =>
    cases p with
    | paren => exact ⟨[], rfl, rfl, .inr ⟨stack, rfl⟩⟩
    | op o =>
      obtain ⟨ops, hstack, hout, htop⟩ := ih (.operator o :: out)
      refine ⟨o :: ops, ?_, ?_, htop⟩
      · rw [flush]
        exact congrArg (.op o :: ·) hstack
      · rw [flush, hout]
        simp [released]

/-- Making room for an operator moves operators from the stack to the output. -/
theorem release_moves (op : Binary) (out : List Token) (stack : List Pending) :
    ∃ ops, stack = waiting ops ++ (release op out stack).1 ∧
      (release op out stack).2 = released ops ++ out := by
  induction stack generalizing out with
  | nil => exact ⟨[], rfl, rfl⟩
  | cons p stack ih =>
    cases p with
    | paren => exact ⟨[], rfl, rfl⟩
    | op o =>
      rw [release]
      by_cases hgo : goesBefore op o = true
      · obtain ⟨ops, hstack, hout⟩ := ih (.operator o :: out)
        rw [if_pos hgo]
        refine ⟨o :: ops, congrArg (.op o :: ·) hstack, ?_⟩
        rw [hout]
        simp [released]
      · rw [if_neg hgo]
        exact ⟨[], rfl, rfl⟩

/-! ## What each token does -/

section Steps
variable {y : Yard} {stack : List Pending}

theorem step_matched (h : (flush y.out y.stack).1 = .paren :: stack) :
    y.step .rparen = .ok ⟨stack, (flush y.out y.stack).2, true⟩ := by
  obtain ⟨s, out, after⟩ := y
  have hflush : flush out s = (.paren :: stack, (flush out s).2) := Prod.ext h rfl
  cases after <;> (simp only [step, separate]; rw [hflush])

theorem step_unmatched (h : (flush y.out y.stack).1 = []) :
    y.step .rparen = .error (.of .unmatchedParen "unmatched )") := by
  obtain ⟨s, out, after⟩ := y
  have hflush : flush out s = ([], (flush out s).2) := Prod.ext h rfl
  cases after <;> (simp only [step, separate]; rw [hflush])

theorem step_released (y : Yard) (op : Binary) :
    y.step (.operator (.binary op)) =
      .ok ⟨.op (.binary op) :: (release op y.out y.stack).1, (release op y.out y.stack).2,
        false⟩ := by
  obtain ⟨s, out, after⟩ := y
  cases after <;> rfl

theorem step_emits (y : Yard) (o : Operand) :
    y.step o.token =
      .ok ⟨(y.separate o.token).stack, o.token :: (y.separate o.token).out, true⟩ := by
  cases o <;> rfl

theorem finish_empty (h : (flush y.out y.stack).1 = []) :
    y.finish = .ok (flush y.out y.stack).2.reverse := by
  have hflush : flush y.out y.stack = ([], (flush y.out y.stack).2) := Prod.ext h rfl
  rw [finish, hflush]

theorem finish_open (h : (flush y.out y.stack).1 = .paren :: stack) :
    y.finish = .error (.of .unmatchedParen "unmatched (") := by
  have hflush : flush y.out y.stack = (.paren :: stack, (flush y.out y.stack).2) := Prod.ext h rfl
  rw [finish, hflush]

end Steps

/-! ## The accounts -/

/-- What a yard has taken in is where it belongs. -/
structure Accounts (ts : List Token) (y : Yard) : Prop where
  depth : y.stack.count .paren + ts.countP Token.isRparen = ts.countP Token.isLparen
  perm : (held y.stack ++ y.out).Perm (ts.filter fun t => !t.isParen)
  operands : (y.out.filter Token.isOperand).reverse = ts.filter Token.isOperand

namespace Accounts
variable {ts : List Token} {stack : List Pending} {out : List Token} {after : Bool}

theorem start : Accounts [] .start := ⟨rfl, .refl _, rfl⟩

/-- Operators may go from the stack to the output at any time. -/
theorem move {ops : List Operator} (h : Accounts ts ⟨waiting ops ++ stack, out, after⟩)
    (after' : Bool) : Accounts ts ⟨stack, released ops ++ out, after'⟩ where
  depth := by
    have hdepth := h.depth
    rwa [count_paren_waiting] at hdepth
  perm := by
    refine List.Perm.trans ?_ h.perm
    rw [held_waiting, List.append_assoc]
    calc held stack ++ (released ops ++ out)
        _ ~ released ops ++ (held stack ++ out) := List.perm_append_comm_assoc ..
        _ ~ ops.map Token.operator ++ (held stack ++ out) :=
          (List.reverse_perm (ops.map Token.operator)).append_right _
  operands := by
    rw [List.filter_append, isOperand_released, List.nil_append]
    exact h.operands

theorem flushed (h : Accounts ts ⟨stack, out, after⟩) (after' : Bool) :
    Accounts ts ⟨(flush out stack).1, (flush out stack).2, after'⟩ := by
  obtain ⟨ops, hstack, hout, -⟩ := flush_moves out stack
  rw [hstack] at h
  rw [hout]
  exact h.move after'

/-- Ending a list element keeps the accounts. -/
theorem separate {y : Yard} (h : Accounts ts y) (t : Token) : Accounts ts (y.separate t) := by
  unfold Yard.separate
  split
  · exact h
  · exact h
  · exact h
  · exact h.flushed _

theorem lparen (h : Accounts ts ⟨stack, out, after⟩) :
    Accounts (ts ++ [.lparen]) ⟨.paren :: stack, out, false⟩ where
  depth := by
    have hdepth := h.depth
    simp only [List.countP_append, List.countP_singleton, List.count_cons_self, Token.isLparen,
      Token.isRparen, Bool.false_eq_true, ↓reduceIte] at hdepth ⊢
    omega
  perm := by simpa [Token.isParen, Token.isLparen] using h.perm
  operands := by simpa [Token.isOperand] using h.operands

theorem rparen (h : Accounts ts ⟨.paren :: stack, out, after⟩) :
    Accounts (ts ++ [.rparen]) ⟨stack, out, true⟩ where
  depth := by
    have hdepth := h.depth
    simp only [List.countP_append, List.countP_singleton, List.count_cons_self, Token.isLparen,
      Token.isRparen, Bool.false_eq_true, ↓reduceIte] at hdepth ⊢
    omega
  perm := by simpa [Token.isParen, Token.isRparen] using h.perm
  operands := by simpa [Token.isOperand] using h.operands

theorem operator (h : Accounts ts ⟨stack, out, after⟩) (o : Operator) :
    Accounts (ts ++ [.operator o]) ⟨.op o :: stack, out, false⟩ where
  depth := by simpa [Token.isLparen, Token.isRparen] using h.depth
  perm := by
    simp only [held_op, List.cons_append, List.filter_append]
    exact (List.Perm.cons _ h.perm).trans (List.perm_append_singleton _ _).symm
  operands := by simpa [Token.isOperand] using h.operands

theorem operand (h : Accounts ts ⟨stack, out, after⟩) {t : Token} (ht : t.isOperand = true) :
    Accounts (ts ++ [t]) ⟨stack, t :: out, true⟩ := by
  have hl : t.isLparen = false := by cases t <;> simp_all [Token.isOperand, Token.isLparen]
  have hr : t.isRparen = false := by cases t <;> simp_all [Token.isOperand, Token.isRparen]
  refine ⟨?_, ?_, ?_⟩
  · simpa [hl, hr] using h.depth
  · have hin : (ts ++ [t]).filter (fun t => !t.isParen) =
        ts.filter (fun t => !t.isParen) ++ [t] := by
      simp [Token.isParen, hl, hr]
    rw [hin]
    calc held stack ++ t :: out
        _ ~ t :: (held stack ++ out) := List.perm_middle
        _ ~ t :: ts.filter (fun t => !t.isParen) := h.perm.cons t
        _ ~ ts.filter (fun t => !t.isParen) ++ [t] := (List.perm_append_singleton _ _).symm
  · have hops := h.operands
    simp [ht, hops]

theorem released (h : Accounts ts ⟨stack, out, after⟩) (op : Binary) (after' : Bool) :
    Accounts ts ⟨(release op out stack).1, (release op out stack).2, after'⟩ := by
  obtain ⟨ops, hstack, hout⟩ := release_moves op out stack
  rw [hstack] at h
  rw [hout]
  exact h.move after'

/-- **One token keeps the accounts.** The yard refuses a closing parenthesis without a partner and
nothing else. -/
theorem step {y : Yard} (h : Accounts ts y) (t : Token) :
    (∃ y', y.step t = .ok y' ∧ Accounts (ts ++ [t]) y') ∨
      (y.step t = .error (.of .unmatchedParen "unmatched )") ∧
        (ts ++ [t]).countP Token.isLparen < (ts ++ [t]).countP Token.isRparen) := by
  obtain rfl | rfl | ⟨o, rfl⟩ | ⟨o, rfl⟩ := t.sort
  · exact .inl ⟨_, rfl, (h.separate .lparen).lparen⟩
  · obtain ⟨ops, -, -, htop⟩ := flush_moves y.out y.stack
    have hflushed := h.flushed true
    obtain hnone | ⟨rest, hsome⟩ := htop
    · -- no parenthesis is open, so this one has no partner
      refine .inr ⟨step_unmatched hnone, ?_⟩
      have hdepth := hflushed.depth
      simp only [hnone, List.count_nil, List.countP_append, List.countP_singleton, Token.isLparen,
        Token.isRparen, Bool.false_eq_true, ↓reduceIte] at hdepth ⊢
      omega
    · rw [hsome] at hflushed
      exact .inl ⟨_, step_matched hsome, hflushed.rparen⟩
  · cases o with
    | unary o => exact .inl ⟨_, step_unary .., h.operator _⟩
    | binary o => exact .inl ⟨_, step_released .., (h.released o true).operator _⟩
  · exact .inl ⟨_, step_emits .., (h.separate o.token).operand o.isOperand_token⟩

/-- **A run keeps the accounts**, up to the first closing parenthesis without a partner. -/
theorem run {y : Yard} (h : Accounts ts y) (us : List Token) :
    (∃ y', y.run us = .ok y' ∧ Accounts (ts ++ us) y' ∧
        ∀ before, before <+: us →
          (ts ++ before).countP Token.isRparen ≤ (ts ++ before).countP Token.isLparen) ∨
      (y.run us = .error (.of .unmatchedParen "unmatched )") ∧
        ∃ before, before <+: us ∧
          (ts ++ before).countP Token.isLparen < (ts ++ before).countP Token.isRparen) := by
  induction us generalizing ts y with
  | nil =>
    refine .inl ⟨y, rfl, by simpa using h, ?_⟩
    intro before hbefore
    rw [List.prefix_nil.1 hbefore, List.append_nil]
    have hdepth := h.depth
    omega
  | cons t us ih =>
    rw [Yard.run]
    obtain ⟨y', hstep, hy'⟩ | ⟨hstep, hcount⟩ := h.step t
    · simp only [hstep]
      obtain ⟨y'', hrun, hy'', hprefixes⟩ | ⟨hrun, before, hbefore, hcount⟩ := ih hy'
      · refine .inl ⟨y'', hrun, by simpa using hy'', ?_⟩
        intro before hbefore
        obtain rfl | ⟨before, rfl, hrest⟩ := List.prefix_cons_iff.1 hbefore
        · have hdepth := h.depth
          simp only [List.append_nil]
          omega
        · simpa using hprefixes before hrest
      · refine .inr ⟨hrun, t :: before, ?_, by simpa using hcount⟩
        exact List.prefix_cons_iff.2 (.inr ⟨before, rfl, hbefore⟩)
    · refine .inr ⟨by simp only [hstep], [t], ?_, hcount⟩
      exact List.prefix_cons_iff.2 (.inr ⟨[], rfl, List.nil_prefix⟩)

/-- What is left on the stack goes out at the end, unless there is a parenthesis among it. -/
theorem finish {y : Yard} (h : Accounts ts y) :
    (ts.countP Token.isLparen = ts.countP Token.isRparen ∧
        ∃ out, y.finish = .ok out ∧ Rearranges ts out) ∨
      (ts.countP Token.isLparen ≠ ts.countP Token.isRparen ∧
        y.finish = .error (.of .unmatchedParen "unmatched (")) := by
  obtain ⟨ops, -, -, htop⟩ := flush_moves y.out y.stack
  have hflushed := h.flushed true
  obtain hnone | ⟨rest, hsome⟩ := htop
  · rw [hnone] at hflushed
    refine .inl ⟨by simpa using hflushed.depth.symm, _, finish_empty hnone, ?_⟩
    have hperm := hflushed.perm
    rw [held_nil, List.nil_append] at hperm
    refine ⟨?_, (List.reverse_perm _).trans hperm, ?_⟩
    · intro t ht
      have hin := hperm.mem_iff.1 (List.mem_reverse.1 ht)
      simpa using (List.mem_filter.1 hin).2
    · rw [List.filter_reverse]
      exact hflushed.operands
  · rw [hsome] at hflushed
    have hdepth := hflushed.depth
    simp only [List.count_cons_self] at hdepth
    exact .inr ⟨by omega, finish_open hsome⟩

end Accounts

end Yard

/-! ## All tokens -/

/-- Balanced tokens are rearranged, and all others refused. -/
theorem postfixOrder_cases (tokens : List Token) :
    (Balanced tokens ∧ ∃ out, postfixOrder tokens = .ok out ∧ Rearranges tokens out) ∨
      (¬ Balanced tokens ∧
        ∃ message, postfixOrder tokens = .error (.of .unmatchedParen message)) := by
  unfold postfixOrder
  obtain ⟨y, hrun, hy, hprefixes⟩ | ⟨hrun, before, hbefore, hcount⟩ :=
    Yard.Accounts.start.run tokens
  · rw [hrun]
    obtain ⟨hclosed, out, hfinish, hout⟩ | ⟨hopen, hfinish⟩ := hy.finish
    · exact .inl ⟨⟨hprefixes, hclosed⟩, out, hfinish, hout⟩
    · exact .inr ⟨fun hbalanced => hopen hbalanced.closed, _, hfinish⟩
  · rw [hrun]
    refine .inr ⟨fun hbalanced => ?_, _, rfl⟩
    have hopened := hbalanced.opened before hbefore
    simp only [List.nil_append] at hcount
    omega

theorem rearranges_of_postfixOrder {tokens out : List Token} (h : postfixOrder tokens = .ok out) :
    Rearranges tokens out := by
  obtain ⟨-, out', hok, hout⟩ | ⟨-, message, herror⟩ := postfixOrder_cases tokens
  · rw [hok] at h
    cases h
    exact hout
  · rw [herror] at h
    cases h

/-- **Postfix order fails exactly where the parentheses do not match**, and otherwise it only
rearranges: no parenthesis is left, no other token is lost or added, and the operands keep their
order. -/
theorem postfixOrder_fails_iff_unbalanced (tokens : List Token) :
    ((∃ fault, postfixOrder tokens = .error fault) ↔ ¬ Balanced tokens) ∧
      (∀ fault, postfixOrder tokens = .error fault → fault.is .unmatchedParen = true) ∧
      ∀ out, postfixOrder tokens = .ok out → Rearranges tokens out := by
  refine ⟨?_, ?_, fun out => rearranges_of_postfixOrder⟩
  · obtain ⟨hbalanced, out, hok, -⟩ | ⟨hunbalanced, message, herror⟩ := postfixOrder_cases tokens
    · simp [hok, hbalanced]
    · simp [herror, hunbalanced]
  · intro fault hfault
    obtain ⟨-, out, hok, -⟩ | ⟨-, message, herror⟩ := postfixOrder_cases tokens
    · rw [hok] at hfault
      cases hfault
    · rw [herror] at hfault
      cases hfault
      rfl

end IndentedSass.Script
