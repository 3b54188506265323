import IndentedSass.Proofs.Ending
import Mathlib.Data.List.Infix

/-!
# Escaping and splicing

Interpolation looks for the first mark `#{`, treats what it finds there and goes on behind it. So a
text comes apart at its marks (`Text.openings_induction`), and what it gives is what its parts give,
one after the other. Two facts follow: a text with all its marks escaped gives the text itself, and
a value takes the place of its braces without being looked at again.
-/

namespace IndentedSass

open Ascii

/-! ## Marks -/

namespace Text
open Script (opening)

theorem after?_eq_none_iff {head s : Text} : after? head s = none ↔ head.isPrefixOf s = false := by
  fun_induction after? head s with
  | case1 => simp
  | case2 => simp
  | case3 head b s ih => simp [ih]
  | case4 a head b s hne => simp [List.isPrefixOf_cons_cons, hne]

theorem eq_append_of_after? {head s rest : Text} (h : after? head s = some rest) :
    s = head ++ rest := by
  fun_induction after? head s with
  | case1 => simpa using h
  | case2 => cases h
  | case3 head b s ih => rw [ih h, List.cons_append]
  | case4 => cases h

/-- Where no mark starts, none does so with more text behind, unless the two bytes of a mark come
together there. -/
theorem isPrefixOf_opening_append {c : UInt8} {s u : Text}
    (h : opening.isPrefixOf (c :: s) = false) (hu : u.head? ≠ some lbrace) :
    opening.isPrefixOf (c :: (s ++ u)) = false := by
  cases s with
  | nil =>
    cases u with
    | nil => exact h
    | cons d u =>
      have hd : (lbrace == d) = false := by
        rw [beq_eq_false_iff_ne]
        rintro rfl
        exact hu rfl
      simp [opening, List.isPrefixOf_cons_cons, hd]
  | cons d s => exact h

theorem head?_opening (s : Text) : (opening ++ s).head? ≠ some lbrace := by
  show some hashSign ≠ some lbrace
  decide

theorem cut?_opening (s : Text) : cut? opening (opening ++ s) = some ([], s) := rfl

/-- Marks are looked for part by part. -/
theorem cut?_append {s u : Text} (hs : cut? opening s = none) (hu : u.head? ≠ some lbrace) :
    cut? opening (s ++ u) = (cut? opening u).map fun cut => (s ++ cut.1, cut.2) := by
  induction s with
  | nil => simp
  | cons c s ih =>
    rw [cut?] at hs
    split at hs
    · cases hs
    · rename_i hafter
      have hrest : after? opening (c :: (s ++ u)) = none :=
        after?_eq_none_iff.2 (isPrefixOf_opening_append (after?_eq_none_iff.1 hafter) hu)
      rw [List.cons_append, cut?, hrest, ih (Option.map_eq_none_iff.1 hs), Option.map_map]
      rfl

/-- A cut is made at the first mark. -/
theorem of_cut?_opening {t before behind : Text} (h : cut? opening t = some (before, behind)) :
    t = before ++ (opening ++ behind) ∧ cut? opening before = none := by
  induction t generalizing before with
  | nil => cases h
  | cons c t ih =>
    rw [cut?] at h
    split at h
    · rename_i rest hrest
      cases h
      refine ⟨?_, rfl⟩
      rw [List.nil_append]
      exact eq_append_of_after? hrest
    · rename_i hafter
      obtain ⟨⟨b, r⟩, hb, heq⟩ := Option.map_eq_some_iff.1 h
      cases heq
      obtain ⟨rfl, hnone⟩ := ih hb
      refine ⟨rfl, ?_⟩
      have hstart : after? opening (c :: b) = none := by
        rw [after?_eq_none_iff] at hafter ⊢
        by_contra hmark
        rw [Bool.not_eq_false, List.isPrefixOf_iff_prefix] at hmark
        have hlonger := hmark.trans (List.prefix_append (c :: b) (opening ++ behind))
        rw [← List.isPrefixOf_iff_prefix] at hlonger
        exact absurd (hlonger.symm.trans hafter) Bool.true_eq_false.mp
      rw [cut?, hstart, hnone]
      rfl

/-- A text comes apart at its marks, from left to right. -/
theorem openings_induction {motive : Text → Prop}
    (plain : ∀ t, cut? opening t = none → motive t)
    (marked : ∀ before behind, cut? opening before = none → motive behind →
      motive (before ++ (opening ++ behind))) (t : Text) : motive t := by
  induction hlength : t.length using Nat.strongRecOn generalizing t with
  | ind length ih =>
    subst hlength
    cases hcut : cut? opening t with
    | none => exact plain t hcut
    | some cut =>
      obtain ⟨before, behind⟩ := cut
      have hshort := length_of_cut? hcut
      obtain ⟨rfl, hnone⟩ := of_cut?_opening hcut
      have htwo : opening.length = 2 := rfl
      exact marked before behind hnone (ih _ (by omega) behind rfl)

end Text

namespace Script

/-! ## Escaping -/

/-- The text with a backslash before each of its marks. -/
def escapeOpenings (t : Text) : Text := Text.replace opening (backslash :: opening) t

theorem escapeOpenings_append {s u : Text} (hs : Text.cut? opening s = none)
    (hu : u.head? ≠ some lbrace) : escapeOpenings (s ++ u) = s ++ escapeOpenings u := by
  induction s with
  | nil => rfl
  | cons c s ih =>
    rw [Text.cut?] at hs
    split at hs
    · cases hs
    · rename_i hafter
      have hstart := Text.isPrefixOf_opening_append (Text.after?_eq_none_iff.1 hafter) hu
      have hrest := ih (Option.map_eq_none_iff.1 hs)
      show Text.replaceFrom opening (backslash :: opening) 0 (c :: (s ++ u)) = _
      rw [Text.replaceFrom, hstart, if_neg Bool.false_ne_true]
      exact congrArg (c :: ·) hrest

theorem escapeOpenings_plain {t : Text} (h : Text.cut? opening t = none) :
    escapeOpenings t = t := by
  have hplain := @escapeOpenings_append t [] h (by simp)
  rwa [List.append_nil, show escapeOpenings [] = [] from rfl, List.append_nil] at hplain

theorem escapeOpenings_opening (t : Text) :
    escapeOpenings (opening ++ t) = backslash :: (opening ++ escapeOpenings t) := rfl

/-! ## Braces -/

/-- No prefix closes more braces than it opens, and the whole text closes all of them. -/
structure BracesBalanced (e : Text) : Prop where
  opened : ∀ before, before <+: e → before.count rbrace ≤ before.count lbrace
  closed : e.count lbrace = e.count rbrace

/-- The induction is on the text; `depth` braces are open before it, which it closes as well. -/
theorem closingBrace?_append {e : Text} (rest : Text) {depth : Nat}
    (hopened : ∀ before, before <+: e → before.count rbrace ≤ depth + before.count lbrace)
    (hclosed : depth + e.count lbrace = e.count rbrace) :
    closingBrace? depth (e ++ rbrace :: rest) = some (e, rest) := by
  induction e generalizing depth with
  | nil =>
    obtain rfl : depth = 0 := by simpa using hclosed
    rfl
  | cons c e ih =>
    have hnext : ∀ before, before <+: e →
        (c :: before).count rbrace ≤ depth + (c :: before).count lbrace :=
      fun before hbefore => hopened _ ((List.prefix_cons_inj c).2 hbefore)
    have hother : rbrace ≠ lbrace := by decide
    rw [List.cons_append, closingBrace?.eq_def]
    dsimp only
    by_cases hl : c = lbrace
    · subst hl
      rw [List.count_cons_self, List.count_cons_of_ne hother.symm] at hclosed
      have hdeeper : ∀ before, before <+: e →
          before.count rbrace ≤ depth + 1 + before.count lbrace := by
        intro before hbefore
        have hcount := hnext before hbefore
        rw [List.count_cons_self, List.count_cons_of_ne hother.symm] at hcount
        omega
      rw [if_pos (beq_self_eq_true lbrace), ih hdeeper (by omega)]
      rfl
    rw [if_neg (by simpa using hl)]
    by_cases hr : c = rbrace
    · subst hr
      rw [List.count_cons_self, List.count_cons_of_ne hother] at hclosed
      rw [if_pos (beq_self_eq_true rbrace)]
      cases depth with
      | zero =>
        -- nothing is open that this brace could close
        have hcount := hnext [] List.nil_prefix
        rw [List.count_cons_self, List.count_cons_of_ne hother] at hcount
        simp at hcount
      | succ depth =>
        have hshallower : ∀ before, before <+: e →
            before.count rbrace ≤ depth + before.count lbrace := by
          intro before hbefore
          have hcount := hnext before hbefore
          rw [List.count_cons_self, List.count_cons_of_ne hother] at hcount
          omega
        dsimp only
        rw [ih hshallower (by omega)]
        rfl
    · rw [List.count_cons_of_ne hl, List.count_cons_of_ne hr] at hclosed
      have hsame : ∀ before, before <+: e →
          before.count rbrace ≤ depth + before.count lbrace := by
        intro before hbefore
        have hcount := hnext before hbefore
        rwa [List.count_cons_of_ne hl, List.count_cons_of_ne hr] at hcount
      rw [if_neg (by simpa using hr), ih hsame hclosed]
      rfl

theorem BracesBalanced.closingBrace? {e : Text} (h : BracesBalanced e) (rest : Text) :
    Script.closingBrace? 0 (e ++ rbrace :: rest) = some (e, rest) := by
  refine closingBrace?_append rest (fun before hbefore => ?_) ?_
  · rw [Nat.zero_add]
    exact h.opened before hbefore
  · rw [Nat.zero_add]
    exact h.closed

/-! ## Interpolating part by part -/

section Parts
variable (ctx : Context)

/-- An escaped mark stands for itself. -/
theorem interpolate_mark {before : Text} (h : Text.cut? opening before = none) (u : Text) :
    interpolate ctx (before ++ backslash :: (opening ++ u)) =
      (interpolate ctx u).map fun rest => before ++ opening ++ rest := by
  have hhead : (backslash :: (opening ++ u)).head? ≠ some lbrace := by
    show some backslash ≠ some lbrace
    decide
  have hcut : Text.cut? opening (before ++ backslash :: (opening ++ u)) =
      some (before ++ [backslash], u) := by
    rw [Text.cut?_append h hhead]
    rfl
  rw [interpolate_escaped hcut (by simp), List.dropLast_concat]

/-- What stands between braces is spliced in behind a text without marks. -/
theorem interpolate_splice {before e : Text} (h : Text.cut? opening before = none)
    (hescape : before.getLast? ≠ some backslash) (he : BracesBalanced e) (rest : Text) :
    interpolate ctx (before ++ (opening ++ (e ++ rbrace :: rest))) =
      (evaluate ctx e).bind fun v =>
        (interpolate ctx rest).map fun filled => before ++ v.plainText ctx.palette ++ filled := by
  have hcut : Text.cut? opening (before ++ (opening ++ (e ++ rbrace :: rest))) =
      some (before, e ++ rbrace :: rest) := by
    rw [Text.cut?_append h (Text.head?_opening _), Text.cut?_opening, Option.map_some,
      List.append_nil]
  exact interpolate_braces hcut hescape (he.closingBrace? rest)

/-- A text with all its marks escaped gives itself. -/
theorem interpolate_escapeOpenings (t : Text) : interpolate ctx (escapeOpenings t) = .ok t := by
  induction t using Text.openings_induction with
  | plain t h => rw [escapeOpenings_plain h, interpolate_plain h]
  | marked before behind h ih =>
    rw [escapeOpenings_append h (Text.head?_opening _), escapeOpenings_opening,
      interpolate_mark ctx h, ih, ← List.append_assoc]
    rfl

/-- The induction is on the marks of the text before the braces; each of them stands for itself. -/
theorem interpolate_escapeOpenings_splice {t e : Text} (ht : t.getLast? ≠ some backslash)
    (he : BracesBalanced e) (rest : Text) :
    interpolate ctx (escapeOpenings t ++ (opening ++ (e ++ rbrace :: rest))) =
      (evaluate ctx e).bind fun v =>
        (interpolate ctx rest).map fun filled => t ++ v.plainText ctx.palette ++ filled := by
  induction t using Text.openings_induction with
  | plain t h =>
    rw [escapeOpenings_plain h]
    exact interpolate_splice ctx h ht he rest
  | marked before behind h ih =>
    have hbehind : behind.getLast? ≠ some backslash := by
      intro hlast
      refine ht ?_
      rw [List.getLast?_append, List.getLast?_append, hlast]
      rfl
    rw [escapeOpenings_append h (Text.head?_opening _), escapeOpenings_opening, List.append_assoc,
      List.cons_append, List.append_assoc, interpolate_mark ctx h, ih hbehind]
    cases evaluate ctx e with
    | error fault => rfl
    | ok v =>
      cases interpolate ctx rest with
      | error fault => rfl
      | ok filled => simp [Except.bind, Except.map]

/-- **Interpolation undoes escaping and splices each value once.** A text with a backslash before
each mark gives the text back. Behind a text that does not end in a backslash, braces give way to
the plain text of what stands between them, or to its fault; then what follows is interpolated by
itself. -/
theorem interpolate_unescapes_and_splices :
    (∀ t, interpolate ctx (escapeOpenings t) = .ok t) ∧
      ∀ t e rest : Text, t.getLast? ≠ some backslash → BracesBalanced e →
        interpolate ctx (escapeOpenings t ++ opening ++ e ++ [rbrace] ++ rest) =
          ((evaluate ctx e).bind fun v =>
            (interpolate ctx rest).map fun filled => t ++ v.plainText ctx.palette ++ filled) := by
  refine ⟨interpolate_escapeOpenings ctx, fun t e rest ht he => ?_⟩
  have hgroup : escapeOpenings t ++ opening ++ e ++ [rbrace] ++ rest =
      escapeOpenings t ++ (opening ++ (e ++ rbrace :: rest)) := by simp
  rw [hgroup]
  exact interpolate_escapeOpenings_splice ctx ht he rest

end Parts

/-- The text `a\#{` before the braces has a mark behind a backslash of its own, and the value
between them is `#{x}`, which stays as it is. -/
theorem interpolate_unescapes_and_splices_mark :
    ("a\\#\x7b" : Text).getLast? ≠ some backslash ∧ BracesBalanced "\"\\#\x7bx\x7d\"" ∧
      escapeOpenings "a\\#\x7b" = ("a\\\\#\x7b" : Text) ∧
      evaluate ⟨fun _ => none, .html4⟩ "\"\\#\x7bx\x7d\"" = .ok (.string "#\x7bx\x7d" true) ∧
      interpolate ⟨fun _ => none, .html4⟩
          (escapeOpenings "a\\#\x7b" ++ opening ++ "\"\\#\x7bx\x7d\"" ++ [rbrace] ++ "b") =
        .ok "a\\#\x7b#\x7bx\x7db" := by
  have hlast : ("a\\#\x7b" : Text).getLast? ≠ some backslash := by decide +kernel
  have hbraces : BracesBalanced "\"\\#\x7bx\x7d\"" := by
    refine ⟨fun before hbefore => ?_, by decide +kernel⟩
    rw [← List.mem_inits] at hbefore
    revert before
    decide +kernel
  have hvalue : evaluate ⟨fun _ => none, .html4⟩ "\"\\#\x7bx\x7d\"" =
      .ok (.string "#\x7bx\x7d" true) := by with_unfolding_all rfl
  refine ⟨hlast, hbraces, by decide +kernel, hvalue, ?_⟩
  rw [(interpolate_unescapes_and_splices ⟨fun _ => none, .html4⟩).2 _ _ _ hlast hbraces, hvalue]
  with_unfolding_all rfl

end Script

end IndentedSass
