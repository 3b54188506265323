import IndentedSass.Proofs.Splicing
import IndentedSass.Proofs.TopLevelLists

/-!
# The text of a URL

The call `url(…)` passes through: its arguments are no expressions. Still they are arguments, cut at
commas and written with a comma and a space between them. So what stands between the parentheses
comes out as it went in if and only if there is no comma in it (`evaluate_url`); a space is put
behind every comma.

On its way the text is searched for interpolations, split twice at commas and scanned for a closing
parenthesis. Each of these goes over bytes without a meaning one by one: `passes_of_bare`,
`splitTopLevel_bare` and `closingParen_bare`.
-/

namespace IndentedSass

open Ascii

namespace Text

/-! ## White space -/

/-- No white space character occurs in a text. -/
structure Unspaced (s : Text) : Prop where
  bytes : ∀ c ∈ s, isSpaceByte c = false
  wide : ∀ sp ∈ wideSpaces, ¬ sp <:+: s

instance (s : Text) : Decidable (Unspaced s) :=
  @decidable_of_iff _ ((∀ c ∈ s, isSpaceByte c = false) ∧ ∀ sp ∈ wideSpaces, ¬ sp <:+: s)
    ⟨fun h => ⟨h.1, h.2⟩, fun h => ⟨h.1, h.2⟩⟩
    (@instDecidableAnd _ _ (List.decidableBAll _ _) (List.decidableBAll _ _))

theorem Unspaced.of_infix {s t : Text} (h : Unspaced t) (hs : s <:+: t) : Unspaced s where
  bytes := fun c hc => h.bytes c (hs.subset hc)
  wide := fun sp hsp hin => h.wide sp hsp (hin.trans hs)

theorem spaceTail?_eq_none {wide : List Text} {s : Text} (hbytes : ∀ c ∈ s, isSpaceByte c = false)
    (hwide : ∀ sp ∈ wide, ¬ sp <+: s) : spaceTail? wide s = none := by
  cases s with
  | nil => rfl
  | cons c s =>
    have hc := hbytes c List.mem_cons_self
    rw [spaceTail?, hc, if_neg Bool.false_ne_true, Option.map_eq_none_iff, List.find?_eq_none]
    intro sp hsp hstarts
    exact hwide sp hsp (List.isPrefixOf_iff_prefix.1 hstarts)

/-- A text that neither starts nor ends with white space stays as it is. -/
theorem trim_eq_self {s : Text} (hfirst : spaceTail? wideSpaces s = none)
    (hlast : spaceTail? (wideSpaces.map List.reverse) s.reverse = none) : trim s = s := by
  rw [trim, dropSpaces_eq_self hfirst, dropSpaces_eq_self hlast, List.reverse_reverse]

theorem Unspaced.trim {s : Text} (h : Unspaced s) : trim s = s := by
  refine trim_eq_self (spaceTail?_eq_none h.bytes fun sp hsp hstarts => ?_)
    (spaceTail?_eq_none (fun c hc => h.bytes c (List.mem_reverse.1 hc)) fun sp hsp hstarts => ?_)
  · exact h.wide sp hsp hstarts.isInfix
  · obtain ⟨w, hw, rfl⟩ := List.mem_map.1 hsp
    exact h.wide w hw (List.reverse_prefix.1 hstarts).isInfix

theorem Unspaced.isBlankText {s : Text} (h : Unspaced s) (hne : s ≠ []) :
    s.isBlankText = false := by
  rw [Text.isBlankText, h.trim, List.isEmpty_eq_false_iff]
  exact hne

/-! ## Pieces -/

/-- The first piece starts a text, and the others occur in it. -/
theorem infix_of_splitOn {sep : UInt8} {s p : Text} {rest : List Text}
    (h : splitOn sep s = p :: rest) : p <+: s ∧ ∀ e ∈ rest, e <:+: s := by
  induction s generalizing p rest with
  | nil =>
    cases h
    exact ⟨List.prefix_refl _, List.forall_mem_nil _⟩
  | cons c s ih =>
    rw [splitOn] at h
    cases hpieces : splitOn sep s with
    | nil => exact absurd hpieces (splitOn_ne_nil sep s)
    | cons q more =>
      obtain ⟨hq, hmore⟩ := ih hpieces
      have hlater : ∀ e ∈ more, e <:+: c :: s := fun e he => List.infix_cons (hmore e he)
      rw [hpieces] at h
      dsimp only at h
      split at h
      · cases h
        exact ⟨List.nil_prefix, List.forall_mem_cons.2 ⟨List.infix_cons hq.isInfix, hlater⟩⟩
      · cases h
        exact ⟨(List.prefix_cons_inj c).2 hq, hlater⟩

theorem Unspaced.map_trim_splitOn {s : Text} (h : Unspaced s) (sep : UInt8) :
    (splitOn sep s).map Text.trim = splitOn sep s := by
  cases hpieces : splitOn sep s with
  | nil => rfl
  | cons p rest =>
    obtain ⟨hp, hrest⟩ := infix_of_splitOn hpieces
    have hsame : rest.map Text.trim = rest.map id :=
      List.map_congr_left fun e he => (h.of_infix (hrest e he)).trim
    rw [List.map_cons, (h.of_infix hp.isInfix).trim, hsame, List.map_id]

/-- Joining the pieces with something else replaces the separator. -/
theorem join_splitOn_eq_replace (sep : UInt8) (new s : Text) :
    join new (splitOn sep s) = replace [sep] new s := by
  rw [replace_byte]
  induction s with
  | nil => rfl
  | cons c s ih =>
    rw [splitOn, List.flatMap_cons, ← ih]
    cases hpieces : splitOn sep s with
    | nil => exact absurd hpieces (splitOn_ne_nil sep s)
    | cons p rest =>
      dsimp only
      split
      · rw [join, List.nil_append]
      · cases rest <;> rfl

/-- Every separator that is replaced by something longer shows. -/
theorem replace_eq_self_iff {sep extra : UInt8} {s : Text} :
    replace [sep] [sep, extra] s = s ↔ sep ∉ s := by
  have hlength : ∀ t : Text, (t.flatMap fun b => if b = sep then [sep, extra] else [b]).length =
      t.length + t.count sep := by
    intro t
    induction t with
    | nil => rfl
    | cons b t ih =>
      rw [List.flatMap_cons, List.length_append, ih, List.length_cons, List.count_cons]
      by_cases hb : b = sep
      · simp only [hb, if_true, beq_self_eq_true, List.length_cons, List.length_nil]
        omega
      · simp only [hb, if_false, beq_eq_false_iff_ne.2 hb, Bool.false_eq_true, List.length_cons,
          List.length_nil]
        omega
  rw [replace_byte]
  constructor
  · intro hsame
    have hcount := hlength s
    rw [hsame] at hcount
    exact List.count_eq_zero.1 (by omega)
  · intro hsep
    have hsingle : ∀ b ∈ s, (if b = sep then [sep, extra] else [b]) = [b] := by
      intro b hb
      rw [if_neg]
      rintro rfl
      exact hsep hb
    rw [List.flatMap_congr hsingle, List.flatMap_singleton']

end Text

namespace Script

/-! ## Bytes without a meaning -/

/-- Outside parentheses every separator splits. -/
theorem splitFrom_bare (sep : UInt8) {w : Text} (hw : ∀ c ∈ w, IsBare c) (piece : Text) :
    splitFrom sep ⟨piece, 0, 0⟩ w = (Text.splitOn sep w).modifyHead (piece.reverse ++ ·) := by
  induction w generalizing piece with
  | nil => simp [splitFrom, Text.splitOn]
  | cons c w ih =>
    obtain ⟨⟨hquote, hl, hr⟩, hrest⟩ := List.forall_mem_cons.1 hw
    rw [splitFrom, hquote, if_neg Bool.false_ne_true, if_neg (by simpa using hl),
      if_neg (by simpa using hr), ih hrest, ih hrest, Text.splitOn]
    cases hpieces : Text.splitOn sep w with
    | nil => exact absurd hpieces (Text.splitOn_ne_nil sep w)
    | cons p rest =>
      by_cases hc : c = sep <;> simp [hc]

theorem splitTopLevel_bare (sep : UInt8) {w : Text} (hw : ∀ c ∈ w, IsBare c) :
    splitTopLevel sep w = (Text.splitOn sep w).map Text.trim := by
  rw [splitTopLevel, splitFrom_bare sep hw]
  cases Text.splitOn sep w <;> rfl

/-- The search for a closing parenthesis goes on behind bare bytes. -/
theorem Token.closingParen_bare (whole : Text) {w : Text} (hw : ∀ c ∈ w, IsBare c) (depth : Nat)
    (s : Text) :
    closingParen whole depth 0 (w ++ s) = (closingParen whole depth 0 s).map (· + w.length) := by
  induction w with
  | nil => cases h : closingParen whole depth 0 s <;> simp [h, Except.map]
  | cons c w ih =>
    obtain ⟨⟨hquote, hl, hr⟩, hrest⟩ := List.forall_mem_cons.1 hw
    rw [List.cons_append, closingParen.eq_def]
    dsimp only
    rw [hquote, if_neg Bool.false_ne_true, if_neg (by simpa using hl), if_neg (by simpa using hr),
      ih hrest]
    cases closingParen whole depth 0 s with
    | error fault => rfl
    | ok n => simp [Except.map, Nat.add_assoc]

/-! ## Calls that pass through -/

theorem passedArguments_verbatim (palette : Palette) (eval : Text → Except Halt Value)
    (args : List Text) : passedArguments palette eval true args = .ok args := by
  induction args with
  | nil => rfl
  | cons arg args ih =>
    rw [passedArguments, ih]
    rfl

theorem call_url (palette : Palette) (eval : Text → Except Halt Value) (args : List Text) :
    call palette eval "url" args = .ok (.string ("url(" ++ Text.join ", " args ++ ")") false) := by
  have hname : Builtin.ofName? "url" = none := by decide +kernel
  have hopen : ("url" ++ "(" : Text) = "url(" := by decide +kernel
  have hverbatim : (("url" : Text) == ("url" : Text)) = true := beq_self_eq_true _
  rw [call, hname]
  dsimp only
  rw [hverbatim, passedArguments_verbatim, ← hopen]
  rfl

/-- What may stand between the parentheses of a URL: no white space, quotes, parentheses and
interpolations. -/
structure IsUrlText (w : Text) : Prop where
  unspaced : w.Unspaced
  bare : ∀ c ∈ w, IsBare c
  unmarked : Text.cut? opening w = none

instance (w : Text) : Decidable (IsUrlText w) :=
  @decidable_of_iff _ (w.Unspaced ∧ (∀ c ∈ w, IsBare c) ∧ Text.cut? opening w = none)
    ⟨fun h => ⟨h.1, h.2.1, h.2.2⟩, fun h => ⟨h.1, h.2, h.3⟩⟩
    (@instDecidableAnd _ _ inferInstance
      (@instDecidableAnd _ _ (List.decidableBAll _ _) inferInstance))

namespace IsUrlText
variable {w : Text} (h : IsUrlText w)
include h

theorem arguments_eq (hne : w ≠ []) : Token.arguments w = Text.splitOn comma w := by
  rw [Token.arguments, h.unspaced.isBlankText hne, if_neg Bool.false_ne_true,
    splitTopLevel_bare comma h.bare, h.unspaced.map_trim_splitOn]

/-- A space comes behind every comma. -/
theorem join_arguments : Text.join ", " (Token.arguments w) = Text.replace "," ", " w := by
  have hsep : ("," : Text) = [comma] := by decide +kernel
  by_cases hne : w = []
  · subst hne
    rfl
  · rw [h.arguments_eq hne, hsep, Text.join_splitOn_eq_replace]

omit h in
/-- The bytes of the call. -/
theorem bytes_url (w : Text) :
    ("url(" ++ w ++ ")" : Text) = 0x75 :: 0x72 :: 0x6c :: lparen :: (w ++ [rparen]) := by
  have hopen : ("url(" : Text) = [0x75, 0x72, 0x6c, lparen] := by decide +kernel
  have hclose : (")" : Text) = [rparen] := by decide +kernel
  rw [hopen, hclose]
  rfl

/-- The word before the parenthesis takes all that stands in parentheses along. -/
theorem wordLexeme_url :
    Token.wordLexeme (0x75 :: 0x72 :: 0x6c :: lparen :: (w ++ [rparen])) 3 =
      .ok ⟨some (.function "url" (Token.arguments w)), 3 + (w.length + 1) + 1⟩ := by
  have hword : ("url" : Text) = [0x75, 0x72, 0x6c] := by decide +kernel
  have hparen : ∀ whole, Token.closingParen whole 0 0 (w ++ [rparen]) = .ok (w.length + 1) := by
    intro whole
    rw [Token.closingParen_bare whole h.bare, Nat.add_comm]
    rfl
  have hoperator : Token.wordOperator? [0x75, 0x72, 0x6c] = none := by decide +kernel
  rw [Token.wordLexeme, List.take_succ_cons, List.take_succ_cons, List.take_succ_cons,
    List.take_zero, hoperator]
  show (Token.closingParen _ 0 0 (w ++ [rparen])).bind _ = _
  rw [hparen, hword]
  simp only [Except.bind, pure, Except.pure, Nat.add_sub_cancel, List.take_left]

theorem lexeme_url :
    Token.lexeme true true 0x75 (0x72 :: 0x6c :: lparen :: (w ++ [rparen])) =
      .ok ⟨some (.function "url" (Token.arguments w)), 3 + (w.length + 1) + 1⟩ := by
  have hcall := h.wordLexeme_url
  have hident : Token.identLength (0x75 :: 0x72 :: 0x6c :: lparen :: (w ++ [rparen])) = 3 := rfl
  generalize w ++ [rparen] = rest at hident hcall
  -- the first byte starts no other kind of token
  have hnumber : ¬Token.startsNumber (0x75 :: 0x72 :: 0x6c :: lparen :: rest) = true :=
    Bool.false_ne_true
  have hminus : ¬(0x75 == minus && Token.startsNumber (0x72 :: 0x6c :: lparen :: rest) &&
      true) = true := Bool.false_ne_true
  have hsigil : ¬((0x75 == dollar || 0x75 == bang) &&
      ((0x72 :: 0x6c :: lparen :: rest).head?.map isWord).getD false) = true :=
    Bool.false_ne_true
  rw [Token.lexeme, if_neg hnumber, if_neg hminus, if_neg (by decide), if_neg (by decide),
    if_neg hsigil, hident, if_pos (by decide), hcall]

/-- The call is read as one token. -/
theorem reads : Token.Reads true false ("url(" ++ w ++ ")")
    (.ok [.function "url" (Token.arguments w)]) := by
  have hrest : Token.Reads false false
      ((0x75 :: 0x72 :: 0x6c :: lparen :: (w ++ [rparen])).drop (3 + (w.length + 1) + 1))
      (.ok []) := by
    rw [List.drop_eq_nil_of_le (by simp; omega)]
    exact .finish _ _
  rw [bytes_url]
  exact .take (by decide) h.lexeme_url hrest

/-- The comma of an argument is not one of the expression. -/
theorem closed_url : Closed ("url(" ++ w ++ ")") := by
  have hw : Passes comma 1 w 1 := passes_of_bare fun c hc => ⟨h.bare c hc, fun _ => by decide⟩
  rw [bytes_url]
  constructor
  · -- the call starts and ends with bytes that are no white space
    refine Text.trimmed_iff.2 (Text.trim_eq_self rfl ?_)
    rw [show 0x75 :: 0x72 :: 0x6c :: lparen :: (w ++ [rparen]) =
      (0x75 :: 0x72 :: 0x6c :: lparen :: w) ++ [rparen] from rfl, List.reverse_concat]
    rfl
  · exact .plain (by decide) (by decide) (.plain (by decide) (by decide)
      (.plain (by decide) (by decide) (.opening (hw.append (.closing .nil)))))

theorem splitTopLevel_url : splitTopLevel comma ("url(" ++ w ++ ")") = ["url(" ++ w ++ ")"] :=
  h.closed_url.splitTopLevel_eq

theorem interpolate_url (ctx : Context) :
    interpolate ctx ("url(" ++ w ++ ")") = .ok ("url(" ++ w ++ ")") := by
  have hbehind : Text.cut? opening (w ++ [rparen]) = none := by
    have hhead : [rparen].head? ≠ some lbrace := by decide
    rw [Text.cut?_append h.unmarked hhead]
    rfl
  refine interpolate_plain ?_
  rw [bytes_url]
  show ((((Text.cut? opening (w ++ [rparen])).map _).map _).map _).map _ = none
  rw [hbehind]
  rfl

end IsUrlText

/-- **A URL comes out as it went in if and only if it has no comma.** Whatever the variables are,
the value of the call is an unquoted string: the call itself, with a space behind every comma. -/
theorem evaluate_url (ctx : Context) {w : Text} (h : IsUrlText w) :
    evaluate ctx ("url(" ++ w ++ ")") =
        .ok (.string ("url(" ++ Text.replace "," ", " w ++ ")") false) ∧
      (evaluate ctx ("url(" ++ w ++ ")") = .ok (.string ("url(" ++ w ++ ")") false) ↔
        comma ∉ w) := by
  have hvalue : evaluate ctx ("url(" ++ w ++ ")") =
      .ok (.string ("url(" ++ Text.replace "," ", " w ++ ")") false) := by
    have horder : postfixOrder [.function "url" (Token.arguments w)] =
        .ok [.function "url" (Token.arguments w)] := rfl
    have hcall : evalPostfix ctx (evaluateOne ctx) [.function "url" (Token.arguments w)] =
        call ctx.palette (evaluateOne ctx) "url" (Token.arguments w) :=
      evalPostfix_row ctx (evaluateOne ctx)
        (List.cons_ne_nil (Expr.operand (.call "url" (Token.arguments w))) [])
    rw [evaluate_of_filled (h.interpolate_url ctx), evaluateParts_single h.splitTopLevel_url,
      evaluateOne_of_run h.reads horder, hcall, call_url, h.join_arguments]
  refine ⟨hvalue, ?_⟩
  have hsep : ("," : Text) = [comma] := by decide +kernel
  have hnew : (", " : Text) = [comma, space] := by decide +kernel
  rw [hvalue, hsep, hnew, ← @Text.replace_eq_self_iff comma space w]
  constructor
  · intro hsame
    have htext := (Value.string.inj (Except.ok.inj hsame)).1
    exact List.append_cancel_left (List.append_cancel_right htext)
  · intro hsame
    rw [hsame]

/-- The parameters of an address, with signs that mean something in expressions and a brace that is
never closed. -/
theorem evaluate_url_address :
    IsUrlText "//a.b/\x7bc?d=-1%&$e#f" ∧ comma ∉ ("//a.b/\x7bc?d=-1%&$e#f" : Text) ∧
      evaluate ⟨fun _ => none, .html4⟩ ("url(" ++ "//a.b/\x7bc?d=-1%&$e#f" ++ ")") =
        .ok (.string ("url(" ++ "//a.b/\x7bc?d=-1%&$e#f" ++ ")") false) := by
  have haddress : IsUrlText "//a.b/\x7bc?d=-1%&$e#f" := by decide +kernel
  have hcomma : comma ∉ ("//a.b/\x7bc?d=-1%&$e#f" : Text) := by decide +kernel
  exact ⟨haddress, hcomma, (evaluate_url ⟨fun _ => none, .html4⟩ haddress).2.2 hcomma⟩

/-- A picture that is part of the sheet always has a comma before its data, and comes out with a
space in it. -/
theorem data_url_altered :
    IsUrlText "data:image/png;base64,AAAA" ∧
      evaluate ⟨fun _ => none, .html4⟩ "url(data:image/png;base64,AAAA)" =
        .ok (.string "url(data:image/png;base64, AAAA)" false) ∧
      evaluate ⟨fun _ => none, .html4⟩ "url(data:image/png;base64,AAAA)" ≠
        .ok (.string "url(data:image/png;base64,AAAA)" false) := by
  have hvalue : evaluate ⟨fun _ => none, .html4⟩ "url(data:image/png;base64,AAAA)" =
      .ok (.string "url(data:image/png;base64, AAAA)" false) := by with_unfolding_all rfl
  refine ⟨by decide +kernel, hvalue, ?_⟩
  rw [hvalue]
  intro hsame
  have htext := (Value.string.inj (Except.ok.inj hsame)).1
  revert htext
  decide +kernel

end Script

end IndentedSass
