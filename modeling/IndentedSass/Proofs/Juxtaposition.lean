import IndentedSass.Proofs.Outcome
import IndentedSass.Proofs.Parentheses
import IndentedSass.Proofs.Pieces

/-!
# Prefix operators after an operand

Values side by side form a list. A token that starts an operand ends the list element before it, but
a prefix operator does not: it joins the operators that still wait. This module says when that makes
a difference. `Phrase` is the grammar of expressions with prefix operators wherever an operand may
stand, and the argument has three parts:

* `Yard.run_phrase`: an expression leaves operators waiting unless it is a single operand or stands
  in parentheses;
* `Yard.run_above`: what is out already has no influence on what comes out later;
* `Yard.Supplied.run`: an operator never comes out before its operands, so that postfix expressions
  can be evaluated one after the other.
-/

namespace IndentedSass.Script

/-! ## Phrases -/

/-- The tokens of an expression or, if `row` is set, of expressions side by side. -/
inductive Phrase : (row : Bool) → List Token → Prop
  | operand (o : Operand) : Phrase false [o.token]
  | parens {ts : List Token} (inner : Phrase true ts) : Phrase false (.lparen :: (ts ++ [.rparen]))
  | unary {ts : List Token} (op : Unary) (inner : Phrase false ts) :
    Phrase false (.operator (.unary op) :: ts)
  | binary {ls rs : List Token} (op : Binary) (first : Phrase false ls)
    (second : Phrase false rs) : Phrase false (ls ++ .operator (.binary op) :: rs)
  | single {ts : List Token} (only : Phrase false ts) : Phrase true ts
  | beside {ts us : List Token} (first : Phrase true ts) (second : Phrase false us) :
    Phrase true (ts ++ us)

/-- A single operand, or anything in parentheses. -/
inductive Primary : List Token → Prop
  | operand (o : Operand) : Primary [o.token]
  | parens {ts : List Token} (inner : Phrase true ts) : Primary (.lparen :: (ts ++ [.rparen]))

/-- A token that may stand before the first operand of a phrase. -/
def Leads (t : Token) : Prop := t = .lparen ∨ ∃ op, t = .operator (.unary op)

theorem Phrase.starts {row : Bool} {ts : List Token} (h : Phrase row ts) :
    ∃ (lead : List Token) (o : Operand) (rest : List Token),
      ts = lead ++ o.token :: rest ∧ ∀ t ∈ lead, Leads t := by
  induction h with
  | operand o => exact ⟨[], o, [], rfl, List.forall_mem_nil _⟩
  | parens _ ih =>
    obtain ⟨lead, o, rest, rfl, hlead⟩ := ih
    exact ⟨.lparen :: lead, o, rest ++ [.rparen], by simp,
      List.forall_mem_cons.2 ⟨.inl rfl, hlead⟩⟩
  | unary op _ ih =>
    obtain ⟨lead, o, rest, rfl, hlead⟩ := ih
    exact ⟨.operator (.unary op) :: lead, o, rest, rfl,
      List.forall_mem_cons.2 ⟨.inr ⟨op, rfl⟩, hlead⟩⟩
  | binary op _ _ ih _ =>
    obtain ⟨lead, o, rest, rfl, hlead⟩ := ih
    exact ⟨lead, o, _, List.append_assoc .., hlead⟩
  | single _ ih => exact ih
  | beside _ _ ih _ =>
    obtain ⟨lead, o, rest, rfl, hlead⟩ := ih
    exact ⟨lead, o, _, List.append_assoc .., hlead⟩

namespace Yard

/-! ## What an expression leaves waiting -/

/-- Nothing goes out from below here: the stack ends, or a parenthesis is open. -/
def Floor (base : List Pending) : Prop := base = [] ∨ ∃ rest, base = .paren :: rest

theorem flush_floor {base : List Pending} (h : Floor base) (ops : List Operator)
    (out : List Token) : flush out (waiting ops ++ base) = (base, released ops ++ out) := by
  rw [flush_waiting]
  obtain rfl | ⟨rest, rfl⟩ := h <;> rfl

/-- A binary operator takes nothing away from below the floor. -/
theorem release_floor {base : List Pending} (h : Floor base) (op : Binary) (ops : List Operator)
    (out : List Token) :
    ∃ kept out', release op out (waiting ops ++ base) = (waiting kept ++ base, out') := by
  induction ops generalizing out with
  | nil =>
    obtain rfl | ⟨rest, rfl⟩ := h
    · exact ⟨[], out, rfl⟩
    · exact ⟨[], out, rfl⟩
  | cons o ops ih =>
    rw [show waiting (o :: ops) ++ base = .op o :: (waiting ops ++ base) from rfl, release]
    split
    · exact ih _
    · exact ⟨o :: ops, out, rfl⟩

/-- Ending a list element may empty the stack down to the floor, and else does nothing. -/
theorem separate_floor {base : List Pending} (h : Floor base) (below : List Operator)
    (out : List Token) (after : Bool) (t : Token) :
    ∃ kept out', separate ⟨waiting below ++ base, out, after⟩ t =
        ⟨waiting kept ++ base, out', after⟩ ∧ (after = false → kept = below) := by
  unfold separate
  split
  · exact ⟨below, out, rfl, fun _ => rfl⟩
  · exact ⟨below, out, rfl, fun _ => rfl⟩
  · exact ⟨below, out, rfl, fun _ => rfl⟩
  · rename_i hafter _ _
    rw [flush_floor h]
    refine ⟨[], released below ++ out, rfl, fun hfalse => ?_⟩
    exact absurd (hafter.symm.trans hfalse) Bool.true_eq_false.mp

/-- What stands in parentheses leaves nothing of its own on the stack. -/
theorem run_parens {y : Yard} {ts : List Token} {ops : List Operator} {out : List Token}
    (h : run ⟨.paren :: (y.separate .lparen).stack, (y.separate .lparen).out, false⟩ ts =
      .ok ⟨waiting ops ++ .paren :: (y.separate .lparen).stack, out, true⟩) :
    run y (.lparen :: (ts ++ [.rparen])) =
      .ok ⟨(y.separate .lparen).stack, released ops ++ out, true⟩ := by
  have hopen : y.step .lparen =
      .ok ⟨.paren :: (y.separate .lparen).stack, (y.separate .lparen).out, false⟩ := rfl
  rw [run, hopen]
  simp only [run_append, h, Except.bind, run, step_rparen]

/-- **An expression goes through the yard without touching what lies below the floor.** At its end
operators wait if it has one outside parentheses, or if some waited before it and it does not start
a new list element. -/
theorem run_phrase {row : Bool} {ts : List Token} (h : Phrase row ts) :
    ∀ {base : List Pending}, Floor base → ∀ (below : List Operator) (out : List Token)
      (after : Bool), ∃ ops out',
        run ⟨waiting below ++ base, out, after⟩ ts = .ok ⟨waiting ops ++ base, out', true⟩ ∧
          (row = false → ¬ Primary ts ∨ after = false ∧ below ≠ [] → ops ≠ []) := by
  induction h with
  | operand o =>
    intro base hbase below out after
    obtain ⟨kept, out', hsep, hkept⟩ := separate_floor hbase below out after o.token
    refine ⟨kept, o.token :: out', ?_, ?_⟩
    · rw [run, step_emits, hsep]
      rfl
    · rintro - (hprimary | ⟨hafter, hbelow⟩)
      · exact absurd (.operand o) hprimary
      · rwa [hkept hafter]
  | @parens ts inner ih =>
    intro base hbase below out after
    obtain ⟨kept, out', hsep, hkept⟩ := separate_floor hbase below out after .lparen
    -- the parenthesis is a floor of its own
    obtain ⟨ops, out'', hrun, -⟩ :=
      @ih (.paren :: (waiting kept ++ base)) (.inr ⟨_, rfl⟩) [] out' false
    refine ⟨kept, released ops ++ out'', ?_, ?_⟩
    · have hparens := @run_parens ⟨waiting below ++ base, out, after⟩ ts ops out''
      rw [hsep] at hparens
      exact hparens hrun
    · rintro - (hprimary | ⟨hafter, hbelow⟩)
      · exact absurd (.parens inner) hprimary
      · rwa [hkept hafter]
  | unary op _ ih =>
    intro base hbase below out after
    obtain ⟨ops, out', hrun, hops⟩ := ih hbase (.unary op :: below) out false
    refine ⟨ops, out', ?_, fun _ _ => hops rfl (.inr ⟨rfl, List.cons_ne_nil _ _⟩)⟩
    rw [run, step_unary]
    exact hrun
  | binary op _ _ ihl ihr =>
    intro base hbase below out after
    obtain ⟨lops, lout, hleft, -⟩ := ihl hbase below out after
    obtain ⟨kept, out', hrelease⟩ := release_floor hbase op lops lout
    obtain ⟨ops, out'', hright, hops⟩ := ihr hbase (.binary op :: kept) out' false
    refine ⟨ops, out'', ?_, fun _ _ => hops rfl (.inr ⟨rfl, List.cons_ne_nil _ _⟩)⟩
    rw [run_append, hleft]
    show run _ _ = _
    rw [run, step_released, hrelease]
    exact hright
  | single _ ih =>
    intro base hbase below out after
    obtain ⟨ops, out', hrun, -⟩ := ih hbase below out after
    exact ⟨ops, out', hrun, fun hrow => by cases hrow⟩
  | beside _ _ ihl ihr =>
    intro base hbase below out after
    obtain ⟨lops, lout, hleft, -⟩ := ihl hbase below out after
    obtain ⟨ops, out', hright, -⟩ := ihr hbase lops lout true
    refine ⟨ops, out', ?_, fun hrow => by cases hrow⟩
    rw [run_append, hleft]
    exact hright

theorem floor_nil : Floor [] := .inl rfl

/-- A primary expression leaves nothing waiting. -/
theorem run_primary {ts : List Token} (h : Primary ts) (out : List Token) :
    ∃ out', run ⟨[], out, false⟩ ts = .ok ⟨[], out', true⟩ := by
  cases h with
  | operand o =>
    refine ⟨o.token :: out, ?_⟩
    rw [run, step_operand]
    rfl
  | parens inner =>
    obtain ⟨ops, out', hrun, -⟩ := @run_phrase _ _ inner [.paren] (.inr ⟨_, rfl⟩) [] out false
    exact ⟨_, @run_parens ⟨[], out, false⟩ _ ops out' hrun⟩

/-! ## What is out already -/

/-- A yard with further tokens out before everything else. -/
def above (y : Yard) (old : List Token) : Yard := { y with out := y.out ++ old }

theorem flush_above (out old : List Token) (stack : List Pending) :
    flush (out ++ old) stack = ((flush out stack).1, (flush out stack).2 ++ old) := by
  induction stack generalizing out with
  | nil => rfl
  | cons p stack ih =>
    cases p with
    | paren => rfl
    | op o => exact ih (.operator o :: out)

theorem release_above (op : Binary) (out old : List Token) (stack : List Pending) :
    release op (out ++ old) stack =
      ((release op out stack).1, (release op out stack).2 ++ old) := by
  induction stack generalizing out with
  | nil => rfl
  | cons p stack ih =>
    cases p with
    | paren => rfl
    | op o =>
      rw [release, release]
      split
      · exact ih (.operator o :: out)
      · rfl

theorem separate_above (y : Yard) (old : List Token) (t : Token) :
    (y.above old).separate t = (y.separate t).above old := by
  obtain ⟨stack, out, after⟩ := y
  cases after with
  | false => rfl
  | true => cases t <;> simp only [above, separate, flush_above]

theorem step_above (y : Yard) (old : List Token) (t : Token) :
    (y.above old).step t = (y.step t).map fun y => y.above old := by
  obtain rfl | rfl | ⟨o, rfl⟩ | ⟨o, rfl⟩ := t.sort
  · show Except.ok _ = Except.ok _
    rw [separate_above]
    rfl
  · have hflush := flush_above y.out old y.stack
    obtain ⟨ops, -, -, hnone | ⟨rest, hsome⟩⟩ := flush_moves y.out y.stack
    · rw [step_unmatched hnone, @step_unmatched (y.above old) (by rw [above, hflush, hnone])]
      rfl
    · rw [step_matched hsome, @step_matched (y.above old) rest (by rw [above, hflush, hsome]),
        above, hflush]
      rfl
  · cases o with
    | unary o => rw [above, step_unary, step_unary]; rfl
    | binary o => rw [step_released, step_released, above, release_above]; rfl
  · rw [step_emits, step_emits, separate_above]
    rfl

/-- **What is out already stays out, and has no influence on what comes after it.** -/
theorem run_above (y : Yard) (old : List Token) (ts : List Token) :
    (y.above old).run ts = (y.run ts).map fun y => y.above old := by
  induction ts generalizing y with
  | nil => rfl
  | cons t ts ih =>
    rw [run, run, step_above]
    cases y.step t with
    | ok y => exact ih y
    | error fault => rfl

/-- Before its first operand an expression sends nothing out. -/
theorem run_lead {lead : List Token} (h : ∀ t ∈ lead, Leads t) (stack : List Pending)
    (out : List Token) : ∃ stack', run ⟨stack, out, false⟩ lead = .ok ⟨stack', out, false⟩ := by
  induction lead generalizing stack with
  | nil => exact ⟨stack, rfl⟩
  | cons t lead ih =>
    obtain ⟨ht, hlead⟩ := List.forall_mem_cons.1 h
    rw [run]
    obtain rfl | ⟨op, rfl⟩ := ht
    · exact ih hlead (.paren :: stack)
    · exact ih hlead (.op (.unary op) :: stack)

/-- The first token that an expression sends out is its first operand. -/
theorem out_of_phrase {row : Bool} {ts : List Token} (h : Phrase row ts) {stack : List Pending}
    {out : List Token} {y : Yard} (hrun : run ⟨stack, out, false⟩ ts = .ok y) :
    ∃ (o : Operand) (more : List Token), y.out = more ++ o.token :: out := by
  obtain ⟨lead, o, rest, rfl, hlead⟩ := h.starts
  obtain ⟨stack', hstack'⟩ := run_lead hlead stack out
  rw [run_append, hstack'] at hrun
  have hrest : run ⟨stack', o.token :: out, true⟩ rest = .ok y := by
    rw [← hrun]
    show _ = run _ _
    rw [run, step_operand]
  have habove := run_above ⟨stack', [], true⟩ (o.token :: out) rest
  rw [show above ⟨stack', [], true⟩ (o.token :: out) = ⟨stack', o.token :: out, true⟩ from rfl,
    hrest] at habove
  cases hfresh : run ⟨stack', [], true⟩ rest with
  | error fault =>
    rw [hfresh] at habove
    cases habove
  | ok fresh =>
    rw [hfresh] at habove
    exact ⟨o, fresh.out, congrArg Yard.out (Except.ok.inj habove)⟩

/-! ## Operators and their operands -/

/-- How many values an operator that waits needs besides the one that its last operand gives. -/
def owes : Pending → Nat
  | .paren => 0
  | .op o => o.arity - 1

/-- How many values all that waits needs besides the one to come. -/
def owed : List Pending → Nat
  | [] => 0
  | p :: stack => owes p + owed stack

@[simp] theorem owed_cons (p : Pending) (stack : List Pending) :
    owed (p :: stack) = owes p + owed stack := rfl

end Yard

/-- The postfix expression with these tokens, the last one first, leaves `n` values. No operator in
it lacks operands. -/
inductive Leaves : List Token → (n : Nat) → Prop
  | nil : Leaves [] 0
  | operand {out : List Token} {n : Nat} (o : Operand) (h : Leaves out n) :
    Leaves (o.token :: out) (n + 1)
  | operator {out : List Token} {n : Nat} (o : Operator) (h : Leaves out (o.arity + n)) :
    Leaves (.operator o :: out) (n + 1)

theorem Operator.arity_pos (o : Operator) : 1 ≤ o.arity := by
  cases o with
  | unary op => exact Nat.le_refl 1
  | binary op => exact Nat.le_succ 1

/-- Whether a token may come next: an operator between operands and a closing parenthesis need an
operand before them. -/
def Fits (after : Bool) : Token → Prop
  | .operator (.binary _) | .rparen => after = true
  | _ => True

/-- Whether all tokens fit, one after the other. -/
def Alternates : (after : Bool) → List Token → Prop
  | _, [] => True
  | after, t :: ts => Fits after t ∧ Alternates (!t.expectsOperand) ts

theorem Phrase.alternates {row : Bool} {ts : List Token} (h : Phrase row ts) :
    ∀ (after : Bool) {rest : List Token}, Alternates true rest → Alternates after (ts ++ rest) := by
  induction h with
  | operand o =>
    intro after rest hrest
    cases o <;> exact ⟨trivial, hrest⟩
  | parens _ ih =>
    intro after rest hrest
    have hclose : Alternates true ([.rparen] ++ rest) := ⟨rfl, hrest⟩
    rw [List.cons_append, List.append_assoc]
    exact ⟨trivial, ih false hclose⟩
  | unary op _ ih =>
    intro after rest hrest
    exact ⟨trivial, ih false hrest⟩
  | binary op _ _ ihl ihr =>
    intro after rest hrest
    rw [List.append_assoc]
    exact ihl after ⟨rfl, ihr false hrest⟩
  | single _ ih => exact ih
  | beside _ _ ihl ihr =>
    intro after rest hrest
    rw [List.append_assoc]
    exact ihl after (ihr true hrest)

namespace Yard

/-- The values are there, or still to come, that what waits needs. -/
def Supplied (y : Yard) : Prop :=
  ∃ n, Leaves y.out n ∧ owed y.stack + y.afterOperand.toNat ≤ n

theorem supplied_start : Supplied .start := ⟨0, .nil, Nat.le_refl 0⟩

/-- After an operand, any of the operators on top may go out. -/
theorem supplied_released {ops : List Operator} {stack : List Pending} {out : List Token} {n : Nat}
    (h : Leaves out n) (hn : owed (waiting ops ++ stack) + 1 ≤ n) :
    ∃ n', Leaves (released ops ++ out) n' ∧ owed stack + 1 ≤ n' := by
  induction ops generalizing out n with
  | nil => exact ⟨n, h, hn⟩
  | cons o ops ih =>
    have hpos := o.arity_pos
    have howes : owed (waiting (o :: ops) ++ stack) =
        (o.arity - 1) + owed (waiting ops ++ stack) := owed_cons _ _
    obtain ⟨m, rfl⟩ : ∃ m, n = o.arity + m := Nat.exists_eq_add_of_le (by omega)
    obtain ⟨n', hn', hle⟩ := ih (.operator o h) (by omega)
    refine ⟨n', ?_, hle⟩
    rwa [show released (o :: ops) ++ out = released ops ++ .operator o :: out by simp [released]]

namespace Supplied
variable {y : Yard}

theorem separate (h : Supplied y) (t : Token) : Supplied (y.separate t) := by
  unfold Yard.separate
  split
  · exact h
  · exact h
  · exact h
  · rename_i hafter _ _
    obtain ⟨n, hn, hle⟩ := h
    obtain ⟨ops, hstack, hout, -⟩ := flush_moves y.out y.stack
    rw [hafter, hstack] at hle
    obtain ⟨n', hn', hle'⟩ := supplied_released hn hle
    rw [← hout] at hn'
    exact ⟨n', hn', by simpa [hafter] using hle'⟩

/-- **One token that fits keeps the yard supplied.** -/
theorem step {y' : Yard} {t : Token} (h : Supplied y) (ht : Fits y.afterOperand t)
    (hstep : y.step t = .ok y') : Supplied y' ∧ y'.afterOperand = !t.expectsOperand := by
  obtain rfl | rfl | ⟨o, rfl⟩ | ⟨o, rfl⟩ := t.sort
  · cases hstep
    obtain ⟨n, hn, hle⟩ := h.separate .lparen
    refine ⟨⟨n, hn, ?_⟩, rfl⟩
    simp only [owed_cons, owes, Bool.toNat_false]
    omega
  · have hafter : y.afterOperand = true := ht
    obtain ⟨n, hn, hle⟩ := h
    obtain ⟨ops, hstack, hout, hnone | ⟨rest, hsome⟩⟩ := flush_moves y.out y.stack
    · rw [step_unmatched hnone] at hstep
      cases hstep
    · rw [step_matched hsome] at hstep
      cases hstep
      rw [hafter, hstack] at hle
      obtain ⟨n', hn', hle'⟩ := supplied_released hn hle
      rw [hsome, owed_cons, owes, Nat.zero_add] at hle'
      exact ⟨⟨n', hout ▸ hn', hle'⟩, rfl⟩
  · cases o with
    | unary o =>
      rw [step_unary] at hstep
      cases hstep
      obtain ⟨n, hn, hle⟩ := h
      refine ⟨⟨n, hn, ?_⟩, rfl⟩
      simp only [owed_cons, owes, Operator.arity, Bool.toNat_false]
      omega
    | binary o =>
      have hafter : y.afterOperand = true := ht
      rw [step_released] at hstep
      cases hstep
      obtain ⟨n, hn, hle⟩ := h
      obtain ⟨ops, hstack, hout⟩ := release_moves o y.out y.stack
      rw [hafter, hstack] at hle
      obtain ⟨n', hn', hle'⟩ := supplied_released hn hle
      refine ⟨⟨n', hout ▸ hn', ?_⟩, rfl⟩
      simp only [owed_cons, owes, Operator.arity, Bool.toNat_false]
      omega
  · rw [step_emits] at hstep
    cases hstep
    obtain ⟨n, hn, hle⟩ := h.separate o.token
    refine ⟨⟨n + 1, .operand o hn, ?_⟩, by cases o <;> rfl⟩
    simp only [Bool.toNat_true]
    omega

/-- **Tokens that alternate keep the yard supplied.** -/
theorem run {y' : Yard} {ts : List Token} (h : Supplied y) (hts : Alternates y.afterOperand ts)
    (hrun : y.run ts = .ok y') : Supplied y' := by
  induction ts generalizing y with
  | nil =>
    cases hrun
    exact h
  | cons t ts ih =>
    rw [Yard.run] at hrun
    cases hstep : y.step t with
    | error fault =>
      rw [hstep] at hrun
      cases hrun
    | ok next =>
      rw [hstep] at hrun
      obtain ⟨hnext, hafter⟩ := h.step hts.1 hstep
      exact ih hnext (hafter ▸ hts.2) hrun

end Supplied

end Yard

/-! ## Evaluating one after the other -/

section Evaluation
variable (ctx : Context) (eval : Text → Except Halt Value)

theorem evalTokens_append (stack : List Value) (p q : List Token) :
    evalTokens ctx eval stack (p ++ q) =
      (evalTokens ctx eval stack p).bind fun stack => evalTokens ctx eval stack q := by
  induction p generalizing stack with
  | nil => rfl
  | cons t p ih =>
    rw [List.cons_append, evalTokens, evalTokens]
    cases evalToken ctx eval stack t with
    | ok stack => exact ih stack
    | error fault => rfl

theorem evalTokens_singleton (stack : List Value) (t : Token) :
    evalTokens ctx eval stack [t] = evalToken ctx eval stack t := by
  rw [evalTokens]
  cases evalToken ctx eval stack t <;> rfl

/-- An operator with enough operands replaces them by its value and leaves the rest alone. -/
theorem evalToken_operator_frame {o : Operator} {n : Nat} {values : List Value}
    (hlength : values.length = o.arity + n) (stack : List Value) :
    evalToken ctx eval (values ++ stack) (.operator o) =
        (evalToken ctx eval values (.operator o)).map (· ++ stack) ∧
      ∀ values', evalToken ctx eval values (.operator o) = .ok values' →
        values'.length = n + 1 := by
  cases o with
  | unary op =>
    have hone : values.length = n + 1 := by rw [hlength, Nat.add_comm]; rfl
    obtain ⟨a, rest, rfl⟩ := List.exists_cons_of_length_eq_add_one hone
    have hrest : rest.length = n := Nat.succ.inj hone
    cases hvalue : op.apply a with
    | error fault => simp [evalToken, hvalue, Outcome.mapError_error, bind, Except.bind, Except.map]
    | ok v =>
      simp [evalToken, hvalue, Outcome.mapError_ok, bind, Except.bind, Except.map, pure,
        Except.pure, hrest]
  | binary op =>
    have htwo : values.length = n + 1 + 1 := by rw [hlength, Nat.add_comm]; rfl
    obtain ⟨b, rest, rfl⟩ := List.exists_cons_of_length_eq_add_one htwo
    obtain ⟨a, rest, rfl⟩ := List.exists_cons_of_length_eq_add_one (Nat.succ.inj htwo)
    have hrest : rest.length = n := Nat.succ.inj (Nat.succ.inj htwo)
    cases hvalue : op.apply ctx.palette a b with
    | error fault => simp [evalToken, hvalue, bind, Except.bind, Except.map]
    | ok v => simp [evalToken, hvalue, bind, Except.bind, Except.map, pure, Except.pure, hrest]

/-- An operand comes on top and leaves the rest alone. -/
theorem evalToken_operand_frame (o : Operand) {n : Nat} {values : List Value}
    (hlength : values.length = n) (stack : List Value) :
    evalToken ctx eval (values ++ stack) o.token =
        (evalToken ctx eval values o.token).map (· ++ stack) ∧
      ∀ values', evalToken ctx eval values o.token = .ok values' → values'.length = n + 1 := by
  rw [evalToken_operand, evalToken_operand]
  cases o.value ctx eval with
  | error fault => exact ⟨rfl, fun values' hvalues' => by cases hvalues'⟩
  | ok v =>
    refine ⟨rfl, fun values' hvalues' => ?_⟩
    cases hvalues'
    rw [List.length_cons, hlength]

/-- What holds of a postfix expression and of the token behind it holds of both together. -/
theorem evalTokens_concat_frame {p : List Token} {t : Token} {n m : Nat} {stack : List Value}
    (hp : evalTokens ctx eval stack p = (evalTokens ctx eval [] p).map (· ++ stack) ∧
      ∀ values, evalTokens ctx eval [] p = .ok values → values.length = n)
    (ht : ∀ values : List Value, values.length = n →
      evalToken ctx eval (values ++ stack) t = (evalToken ctx eval values t).map (· ++ stack) ∧
        ∀ values', evalToken ctx eval values t = .ok values' → values'.length = m) :
    evalTokens ctx eval stack (p ++ [t]) =
        (evalTokens ctx eval [] (p ++ [t])).map (· ++ stack) ∧
      ∀ values, evalTokens ctx eval [] (p ++ [t]) = .ok values → values.length = m := by
  obtain ⟨hframe, hlength⟩ := hp
  rw [evalTokens_append, evalTokens_append, hframe]
  cases hvalues : evalTokens ctx eval [] p with
  | error fault => exact ⟨rfl, fun values hvalues => by cases hvalues⟩
  | ok values =>
    simp only [Except.map, Except.bind, evalTokens_singleton]
    exact ht values (hlength values hvalues)

/-- **A postfix expression takes nothing from the values below its own.** -/
theorem Leaves.evalTokens {out : List Token} {n : Nat} (h : Leaves out n) (stack : List Value) :
    evalTokens ctx eval stack out.reverse =
        (evalTokens ctx eval [] out.reverse).map (· ++ stack) ∧
      ∀ values, evalTokens ctx eval [] out.reverse = .ok values → values.length = n := by
  induction h with
  | nil => exact ⟨rfl, fun values hvalues => by cases hvalues; rfl⟩
  | operand o _ ih =>
    rw [List.reverse_cons]
    exact evalTokens_concat_frame ctx eval ih fun _ hlength =>
      evalToken_operand_frame ctx eval o hlength stack
  | operator o _ ih =>
    rw [List.reverse_cons]
    exact evalTokens_concat_frame ctx eval ih fun _ hlength =>
      evalToken_operator_frame ctx eval hlength stack

/-- Two values as a list. -/
def Value.beside (palette : Palette) (v w : Value) : Value :=
  .string (v.text palette ++ " " ++ w.text palette) false

theorem text_spaced (palette : Palette) (values : List Value) :
    (spaced palette values).text palette = Text.join " " (values.map (Value.text palette)) := by
  rcases values with _ | ⟨v, _ | ⟨w, values⟩⟩ <;> rfl

theorem spaced_append (palette : Palette) {vs ws : List Value} (hvs : vs ≠ []) (hws : ws ≠ []) :
    spaced palette (vs ++ ws) = (spaced palette vs).beside palette (spaced palette ws) := by
  have hlist : spaced palette (vs ++ ws) =
      .string (Text.join " " ((vs ++ ws).map (Value.text palette))) false := by
    rcases vs with _ | ⟨v, _ | ⟨v', vs⟩⟩
    · exact absurd rfl hvs
    · rcases ws with _ | ⟨w, ws⟩
      · exact absurd rfl hws
      · rfl
    · rfl
  rw [hlist, List.map_append, Text.join_append _ (by simpa) (by simpa), Value.beside, text_spaced,
    text_spaced]

/-- Postfix expressions one after the other evaluate to the list of their values. -/
theorem evalPostfix_append {p q : List Token} {m n : Nat} (hp : Leaves p.reverse (m + 1))
    (hq : Leaves q.reverse (n + 1)) :
    evalPostfix ctx eval (p ++ q) =
      (evalPostfix ctx eval p).bind fun v =>
        (evalPostfix ctx eval q).map fun w => v.beside ctx.palette w := by
  have hvs := (hp.evalTokens ctx eval []).2
  rw [List.reverse_reverse] at hvs
  unfold evalPostfix
  rw [evalTokens_append]
  cases hfirst : evalTokens ctx eval [] p with
  | error fault => rfl
  | ok vs =>
    obtain ⟨hframe, hws⟩ := hq.evalTokens ctx eval vs
    rw [List.reverse_reverse] at hframe hws
    simp only [Except.bind, Except.map]
    rw [hframe]
    cases hsecond : evalTokens ctx eval [] q with
    | error fault => rfl
    | ok ws =>
      have hvs' : vs.reverse ≠ [] := by
        rw [Ne, List.reverse_eq_nil_iff, ← List.length_eq_zero_iff, hvs vs hfirst]
        exact Nat.succ_ne_zero m
      have hws' : ws.reverse ≠ [] := by
        rw [Ne, List.reverse_eq_nil_iff, ← List.length_eq_zero_iff, hws ws hsecond]
        exact Nat.succ_ne_zero n
      simp only [Except.map, List.reverse_append, spaced_append _ hvs' hws']

end Evaluation

/-! ## Side by side -/

/-- The postfix order of an expression, with the operators that are the last to come out. -/
theorem postfixOrder_phrase {ts : List Token} (h : Phrase false ts) :
    ∃ (ops : List Operator) (out : List Token),
      Yard.run .start ts = .ok ⟨Yard.waiting ops, out, true⟩ ∧
      postfixOrder ts = .ok (Yard.released ops ++ out).reverse ∧
      (¬ Primary ts → ops ≠ []) ∧ ∃ n, Leaves (Yard.released ops ++ out) (n + 1) := by
  obtain ⟨ops, out, hrun, hops⟩ := Yard.run_phrase h Yard.floor_nil [] [] false
  rw [List.append_nil, List.append_nil] at hrun
  have halternates : Alternates false ts := by
    simpa using @Phrase.alternates _ _ h false [] trivial
  obtain ⟨n, hn, hle⟩ := Yard.supplied_start.run halternates hrun
  have hsupplied : Yard.owed (Yard.waiting ops ++ []) + 1 ≤ n := by simpa using hle
  obtain ⟨n', hn', hpos⟩ := Yard.supplied_released hn hsupplied
  obtain ⟨k, rfl⟩ : ∃ k, n' = k + 1 := Nat.exists_eq_add_of_le' (Nat.le_of_add_left_le hpos)
  refine ⟨ops, out, hrun, ?_, fun hprimary => hops rfl (.inl hprimary), k, hn'⟩
  unfold postfixOrder
  rw [show Yard.run .start ts = _ from hrun]
  exact Yard.finish_waiting ops out true

/-- A prefix operator does not ask what came before it. -/
theorem Yard.run_unary_after (op : Unary) (stack : List Pending) (out rest : List Token) :
    run ⟨stack, out, true⟩ (.operator (.unary op) :: rest) =
      run ⟨stack, out, false⟩ (.operator (.unary op) :: rest) := by
  rw [run, run, step_unary, step_unary]

section SideBySide
variable {a rest : List Token} {op : Unary}

/-- After a primary expression, a prefix operator starts a list element of its own. -/
theorem postfixOrder_primary_append {p q : List Token} (ha : Primary a)
    (hb : Phrase false (.operator (.unary op) :: rest)) (hp : postfixOrder a = .ok p)
    (hq : postfixOrder (.operator (.unary op) :: rest) = .ok q) :
    postfixOrder (a ++ .operator (.unary op) :: rest) = .ok (p ++ q) := by
  obtain ⟨out, hrun⟩ := Yard.run_primary ha []
  obtain ⟨ops, out', hrun', hq', -⟩ := postfixOrder_phrase hb
  have hfirst : postfixOrder a = .ok out.reverse := by
    unfold postfixOrder
    rw [show Yard.run .start a = _ from hrun]
    rfl
  cases hfirst.symm.trans hp
  cases hq'.symm.trans hq
  unfold postfixOrder
  rw [Yard.run_append, show Yard.run .start a = _ from hrun]
  simp only [Except.bind]
  rw [Yard.run_unary_after, show (⟨[], out, false⟩ : Yard) = Yard.start.above out from rfl,
    Yard.run_above, hrun']
  simp only [Except.map, Yard.above]
  rw [Yard.finish_waiting]
  simp

/-- After any other expression, the first operand behind a prefix operator comes out before the
operators that wait. -/
theorem postfixOrder_overtakes {p : List Token} (ha : Phrase false a) (hprimary : ¬ Primary a)
    (hb : Phrase false (.operator (.unary op) :: rest)) (hp : postfixOrder a = .ok p) :
    ∃ (settled more : List Token) (held : List Operator) (o : Operand), held ≠ [] ∧
      p = settled ++ held.map .operator ∧
      postfixOrder (a ++ .operator (.unary op) :: rest) = .ok (settled ++ o.token :: more) := by
  obtain ⟨ops, out, hrun, hp', hops, -⟩ := postfixOrder_phrase ha
  obtain ⟨ops', out', hrun', -⟩ := Yard.run_phrase hb Yard.floor_nil ops out false
  rw [List.append_nil, List.append_nil] at hrun'
  obtain ⟨o, more, hout'⟩ := Yard.out_of_phrase hb hrun'
  cases hp'.symm.trans hp
  refine ⟨out.reverse, (Yard.released ops' ++ more).reverse, ops, o, hops hprimary, ?_, ?_⟩
  · simp [Yard.released]
  · unfold postfixOrder
    rw [Yard.run_append, hrun]
    simp only [Except.bind]
    rw [Yard.run_unary_after, hrun']
    dsimp only at hout' ⊢
    rw [Yard.finish_waiting, hout']
    simp

/-- **A prefix operator starts a list element of its own exactly after a primary expression.** Only
there is the postfix order of both expressions that of the first followed by that of the second,
which evaluates to the list of the two values, or to the first fault. After any other expression the
operators that it left waiting come out behind an operand that is not theirs. -/
theorem postfixOrder_beside_iff_primary (ctx : Context) (eval : Text → Except Halt Value)
    (ha : Phrase false a) (hb : Phrase false (.operator (.unary op) :: rest)) :
    ∃ p q, postfixOrder a = .ok p ∧ postfixOrder (.operator (.unary op) :: rest) = .ok q ∧
      (postfixOrder (a ++ .operator (.unary op) :: rest) = .ok (p ++ q) ↔ Primary a) ∧
      evalPostfix ctx eval (p ++ q) =
        ((evalPostfix ctx eval p).bind fun v =>
          (evalPostfix ctx eval q).map fun w => v.beside ctx.palette w) ∧
      (¬ Primary a → ∃ (settled more : List Token) (held : List Operator) (o : Operand),
        held ≠ [] ∧ p = settled ++ held.map .operator ∧
        postfixOrder (a ++ .operator (.unary op) :: rest) = .ok (settled ++ o.token :: more)) := by
  obtain ⟨_, _, -, hp, -, m, hm⟩ := postfixOrder_phrase ha
  obtain ⟨_, _, -, hq, -, n, hn⟩ := postfixOrder_phrase hb
  refine ⟨_, _, hp, hq, ⟨fun hboth => ?_, fun hprimary => ?_⟩, ?_, fun hprimary => ?_⟩
  · by_contra hprimary
    obtain ⟨settled, more, held, o, hheld, hsettled, hovertakes⟩ :=
      postfixOrder_overtakes ha hprimary hb hp
    rw [hovertakes, hsettled, List.append_assoc] at hboth
    -- an operand would have to be one of the operators
    obtain ⟨h, held, rfl⟩ := List.exists_cons_of_ne_nil hheld
    have hhead := List.append_cancel_left (Except.ok.inj hboth)
    have htoken : o.token = .operator h := (List.cons.inj hhead).1
    cases o <;> cases htoken
  · exact postfixOrder_primary_append hprimary hb hp hq
  · exact evalPostfix_append ctx eval (by rwa [List.reverse_reverse])
      (by rwa [List.reverse_reverse])
  · exact postfixOrder_overtakes ha hprimary hb hp

end SideBySide

/-- `(x + y) not z`: the parentheses keep the sum together. -/
theorem postfixOrder_beside_iff_primary_parens :
    Primary [.lparen, .literal (.string "x" false), .operator (.binary .add),
        .literal (.string "y" false), .rparen] ∧
      Phrase false [.operator (.unary .not), .literal (.string "z" false)] ∧
      postfixOrder ([.lparen, .literal (.string "x" false), .operator (.binary .add),
          .literal (.string "y" false), .rparen] ++
          [.operator (.unary .not), .literal (.string "z" false)]) =
        .ok [.literal (.string "x" false), .literal (.string "y" false), .operator (.binary .add),
          .literal (.string "z" false), .operator (.unary .not)] ∧
      evalPostfix ⟨fun _ => none, .html4⟩ (fun _ => .ok .empty)
          [.literal (.string "x" false), .literal (.string "y" false), .operator (.binary .add),
            .literal (.string "z" false), .operator (.unary .not)] =
        .ok (.string "xy false" false) := by
  have hsum : Phrase false [.literal (.string "x" false), .operator (.binary .add),
      .literal (.string "y" false)] :=
    .binary .add (.operand (.literal (.string "x" false))) (.operand (.literal (.string "y" false)))
  have hnot : Phrase false [.operator (.unary .not), .literal (.string "z" false)] :=
    .unary .not (.operand (.literal (.string "z" false)))
  obtain ⟨p, q, hp, hq, hiff, heval, -⟩ := postfixOrder_beside_iff_primary
    ⟨fun _ => none, .html4⟩ (fun _ => .ok .empty) (.parens (.single hsum)) hnot
  cases hp
  cases hq
  exact ⟨.parens (.single hsum), hnot, hiff.2 (.parens (.single hsum)), heval.trans rfl⟩

/-- `x + y not z`: the sum is still waiting when the prefix operator comes, and then adds the value
of `not z` to `y`. -/
theorem waiting_sum_overtaken :
    Phrase false [.literal (.string "x" false), .operator (.binary .add),
        .literal (.string "y" false)] ∧
      Phrase false [.operator (.unary .not), .literal (.string "z" false)] ∧
      postfixOrder [.literal (.string "x" false), .operator (.binary .add),
          .literal (.string "y" false)] =
        .ok [.literal (.string "x" false), .literal (.string "y" false),
          .operator (.binary .add)] ∧
      postfixOrder [.operator (.unary .not), .literal (.string "z" false)] =
        .ok [.literal (.string "z" false), .operator (.unary .not)] ∧
      postfixOrder ([.literal (.string "x" false), .operator (.binary .add),
          .literal (.string "y" false)] ++
          [.operator (.unary .not), .literal (.string "z" false)]) ≠
        .ok ([.literal (.string "x" false), .literal (.string "y" false),
          .operator (.binary .add)] ++
          [.literal (.string "z" false), .operator (.unary .not)]) ∧
      evaluate ⟨fun _ => none, .html4⟩ "x + y" = .ok (.string "xy" false) ∧
      evaluate ⟨fun _ => none, .html4⟩ "not z" = .ok (.boolean false) ∧
      evaluate ⟨fun _ => none, .html4⟩ "x + y not z" = .ok (.string "x yfalse" false) := by
  refine ⟨.binary .add (.operand (.literal (.string "x" false)))
      (.operand (.literal (.string "y" false))),
    .unary .not (.operand (.literal (.string "z" false))), rfl, rfl, ?_,
    by with_unfolding_all rfl, by with_unfolding_all rfl, by with_unfolding_all rfl⟩
  intro h
  have hthird := congrArg (fun ts : List Token => ts[2]?) (Except.ok.inj h)
  cases hthird

end IndentedSass.Script
