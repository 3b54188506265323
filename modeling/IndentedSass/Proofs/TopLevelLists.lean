import IndentedSass.Proofs.Pieces
import IndentedSass.Proofs.QuotedStrings
import IndentedSass.Proofs.WhiteSpace

/-!
# Lists and their commas

A list is split at its commas outside strings and parentheses, and its items are trimmed. That
undoes the joining of items, with any white space around the commas, as long as each item is
`Closed`: the commas in it stand in strings or at another depth than that of the list, every string
in it ends, and the depth is at the end what it was.

What the scan knows at a comma depends on all that came before: on parentheses, of which there may
be too many of either kind, and on quotes, which count only if they have a partner. `Passes` says
what it makes of a text without looking at what follows, as the scan itself would compute it
(`passes_iff`), and such a text leaves nothing behind but its depth (`splitFrom_passes`).
-/

namespace IndentedSass

namespace Script
open Ascii

/-! ## What a scan passes -/

/-- A byte that neither quotes nor nests. -/
def IsBare (c : UInt8) : Prop := isQuote c = false ∧ c ≠ lparen ∧ c ≠ rparen

instance (c : UInt8) : Decidable (IsBare c) :=
  inferInstanceAs (Decidable (isQuote c = false ∧ c ≠ lparen ∧ c ≠ rparen))

/-- A scan for separators that starts at one depth passes a text and is at another depth then: it
meets no separator outside strings and parentheses, and every string that it enters ends. -/
inductive Passes (sep : UInt8) : Int → Text → Int → Prop
  | nil {depth : Int} : Passes sep depth [] depth
  | string {depth final : Int} {q : UInt8} {inner t s : Text} (hq : isQuote q = true)
    (hinner : Spells q inner t) (rest : Passes sep depth s final) :
    Passes sep depth (q :: (inner ++ q :: s)) final
  | opening {depth final : Int} {s : Text} (rest : Passes sep (depth + 1) s final) :
    Passes sep depth (lparen :: s) final
  | closing {depth final : Int} {s : Text} (rest : Passes sep (depth - 1) s final) :
    Passes sep depth (rparen :: s) final
  | plain {depth final : Int} {c : UInt8} {s : Text} (hc : IsBare c) (hsep : c = sep → depth ≠ 0)
    (rest : Passes sep depth s final) : Passes sep depth (c :: s) final

variable {sep : UInt8} {depth middle final : Int} {s t item : Text}

theorem Passes.append (hs : Passes sep depth s middle) (ht : Passes sep middle t final) :
    Passes sep depth (s ++ t) final := by
  induction hs with
  | nil => exact ht
  | string hq hinner _ ih =>
    rw [List.cons_append, List.append_assoc, List.cons_append]
    exact .string hq hinner (ih ht)
  | opening _ ih => exact .opening (ih ht)
  | closing _ ih => exact .closing (ih ht)
  | plain hc hsep _ ih => exact .plain hc hsep (ih ht)

theorem passes_of_bare (h : ∀ c ∈ s, IsBare c ∧ (c = sep → depth ≠ 0)) :
    Passes sep depth s depth := by
  induction s with
  | nil => exact .nil
  | cons c s ih =>
    obtain ⟨⟨hbare, hsep⟩, hrest⟩ := List.forall_mem_cons.1 h
    exact .plain hbare hsep (ih hrest)

theorem passes_spaces (h : Text.Spaces Text.wideSpaces s) : Passes comma depth s depth := by
  have hwide : (Text.wideSpaces.all fun w => w.all fun c =>
      decide (IsBare c ∧ c ≠ comma)) = true := by
    decide +kernel
  have hbytes : ∀ c ∈ s, IsBare c ∧ c ≠ comma := by
    refine h.forall_mem (fun c hc => ?_) fun w hw c hc => ?_
    · simp only [Text.isSpaceByte, isBlank, Bool.or_eq_true, beq_iff_eq] at hc
      obtain ((((rfl | rfl) | rfl) | rfl) | rfl) | rfl := hc <;> decide
    · exact of_decide_eq_true (List.all_eq_true.1 (List.all_eq_true.1 hwide w hw) c hc)
  exact passes_of_bare fun c hc => ⟨(hbytes c hc).1, fun heq => absurd heq (hbytes c hc).2⟩

theorem isQuote_ne_backslash {q : UInt8} (hq : isQuote q = true) : q ≠ backslash := by
  rintro rfl
  exact absurd hq (by decide)

/-- The string ends with its closing quote, whatever follows. -/
theorem Spells.closingQuote? {q : UInt8} (hq : q ≠ backslash) {inner t : Text}
    (h : Spells q inner t) (s : Text) :
    closingQuote? q (inner ++ q :: s) = some (inner.length + 1) := by
  induction h with
  | nil => exact closingQuote?_close hq s
  | plain hc hne _ ih =>
    rw [List.cons_append, closingQuote?_plain hc hne, ih]
    rfl
  | escaped _ _ ih | delimiter _ ih =>
    rw [List.cons_append, List.cons_append, closingQuote?_escaped, ih]
    rfl

theorem splitFrom_skip (sep : UInt8) (depth : Int) (piece w s : Text) :
    splitFrom sep ⟨piece, depth, w.length⟩ (w ++ s) =
      splitFrom sep ⟨w.reverse ++ piece, depth, 0⟩ s := by
  induction w generalizing piece with
  | nil => rfl
  | cons c w ih =>
    rw [List.length_cons, List.cons_append, splitFrom, ih]
    simp

/-- The depth that a scan is at behind a text, with `skip` bytes of a string still to pass. There is
none if it meets a separator outside strings and parentheses, or a quote without a partner. -/
def depthAfter? (sep : UInt8) : (depth : Int) → (skip : Nat) → Text → Option Int
  | depth, _, [] => some depth
  | depth, skip + 1, _ :: s => depthAfter? sep depth skip s
  | depth, 0, c :: s =>
    if isQuote c then (closingQuote? c s).bind fun skip => depthAfter? sep depth skip s
    else if c == lparen then depthAfter? sep (depth + 1) 0 s
    else if c == rparen then depthAfter? sep (depth - 1) 0 s
    else if c == sep && depth == 0 then none
    else depthAfter? sep depth 0 s

theorem depthAfter?_skip (sep : UInt8) (depth : Int) (w s : Text) :
    depthAfter? sep depth w.length (w ++ s) = depthAfter? sep depth 0 s := by
  induction w with
  | nil => rfl
  | cons c w ih => exact ih

theorem Passes.depthAfter?_eq (h : Passes sep depth s final) :
    depthAfter? sep depth 0 s = some final := by
  induction h with
  | nil => rfl
  | @string depth final q inner t s hq hinner _ ih =>
    have hclose := hinner.closingQuote? (isQuote_ne_backslash hq) s
    have hpassed := depthAfter?_skip sep depth (inner ++ [q]) s
    rw [List.length_append, List.append_assoc, List.singleton_append] at hpassed
    rw [depthAfter?, if_pos hq, hclose, Option.bind_some]
    exact hpassed.trans ih
  | opening _ ih => exact ih
  | closing _ ih => exact ih
  | @plain depth final c s hc hsep _ ih =>
    obtain ⟨hquote, hl, hr⟩ := hc
    rw [depthAfter?, hquote, if_neg Bool.false_ne_true, if_neg (by simpa using hl),
      if_neg (by simpa using hr), if_neg (by simpa using hsep)]
    exact ih

theorem passes_of_depthAfter? {skip : Nat} (h : depthAfter? sep depth skip s = some final) :
    Passes sep depth (s.drop skip) final := by
  fun_induction depthAfter? sep depth skip s with
  | case1 depth skip =>
    cases h
    rw [List.drop_nil]
    exact .nil
  | case2 depth skip c s ih => exact ih h
  | case3 depth c s hq ih =>
    obtain ⟨n, hn, hrest⟩ := Option.bind_eq_some_iff.1 h
    obtain ⟨inner, t, hs, hinner⟩ := exists_spells_of_closingQuote? hn
    rw [List.drop_zero, hs]
    exact .string hq hinner (ih n hrest)
  | case4 depth c s _ hl ih =>
    obtain rfl : c = lparen := by simpa using hl
    exact .opening (ih h)
  | case5 depth c s _ _ hr ih =>
    obtain rfl : c = rparen := by simpa using hr
    exact .closing (ih h)
  | case6 => cases h
  | case7 depth c s hquote hl hr hsep ih =>
    have hbare : IsBare c := ⟨by simpa using hquote, by simpa using hl, by simpa using hr⟩
    exact .plain hbare (by simpa using hsep) (ih h)

/-- **What passes is what a scan computes.** -/
theorem passes_iff : Passes sep depth s final ↔ depthAfter? sep depth 0 s = some final :=
  ⟨Passes.depthAfter?_eq, passes_of_depthAfter?⟩

instance (sep : UInt8) (depth : Int) (s : Text) (final : Int) :
    Decidable (Passes sep depth s final) :=
  decidable_of_iff _ passes_iff.symm

/-- **What is passed goes into the piece that is being read**, and the depth is all that is left of
it. -/
theorem splitFrom_passes (h : Passes sep depth s final) (piece rest : Text) :
    splitFrom sep ⟨piece, depth, 0⟩ (s ++ rest) =
      splitFrom sep ⟨s.reverse ++ piece, final, 0⟩ rest := by
  induction h generalizing piece with
  | nil => rfl
  | @string depth final q inner t s hq hinner _ ih =>
    have hclose := hinner.closingQuote? (isQuote_ne_backslash hq) (s ++ rest)
    have hlength : (some (inner.length + 1)).getD 0 = (inner ++ [q]).length := by simp
    rw [List.cons_append, splitFrom, if_pos hq, List.append_assoc, List.cons_append, hclose,
      hlength, List.append_cons inner q (s ++ rest), splitFrom_skip, ih]
    simp
  | opening _ ih =>
    rw [List.cons_append, splitFrom, if_neg (by decide), if_pos (by decide), ih]
    simp
  | closing _ ih =>
    rw [List.cons_append, splitFrom, if_neg (by decide), if_neg (by decide), if_pos (by decide), ih]
    simp
  | @plain depth final c s hc hsep _ ih =>
    obtain ⟨hquote, hl, hr⟩ := hc
    rw [List.cons_append, splitFrom, hquote, if_neg Bool.false_ne_true, if_neg (by simpa using hl),
      if_neg (by simpa using hr), if_neg (by simpa using hsep), ih]
    simp

/-! ## Splitting and joining -/

theorem splitFrom_ne_nil (sep : UInt8) (st : SplitState) (s : Text) : splitFrom sep st s ≠ [] := by
  fun_induction splitFrom sep st s with
  | case1 => exact List.cons_ne_nil _ _
  | case2 _ _ _ _ _ ih => exact ih
  | case3 => assumption
  | case4 => assumption
  | case5 => assumption
  | case6 => exact List.cons_ne_nil _ _
  | case7 => assumption

/-- Only separators are taken out. -/
theorem join_splitFrom (sep : UInt8) (st : SplitState) (s : Text) :
    Text.join [sep] (splitFrom sep st s) = st.piece.reverse ++ s := by
  fun_induction splitFrom sep st s with
  | case1 st => exact (List.append_nil _).symm
  | case2 piece depth skip c s ih => simpa using ih
  | case3 piece depth c s hq ih => simpa using ih
  | case4 piece depth c s _ hl ih => simpa using ih
  | case5 piece depth c s _ _ hr ih => simpa using ih
  | case6 piece depth c s _ _ _ hsep ih =>
    obtain ⟨rfl, -⟩ : c = sep ∧ depth = 0 := by simpa using hsep
    rw [Text.join_cons [c] _ (splitFrom_ne_nil _ _ _), ih]
    simp
  | case7 piece depth c s _ _ _ _ ih => simpa using ih

/-- Texts that a scan passes come out of the join as they are. -/
theorem splitFrom_join (hbare : IsBare sep) {texts : List Text} (hne : texts ≠ [])
    (h : ∀ t ∈ texts, Passes sep 0 t 0) :
    splitFrom sep ⟨[], 0, 0⟩ (Text.join [sep] texts) = texts := by
  induction texts with
  | nil => exact absurd rfl hne
  | cons t texts ih =>
    obtain ⟨ht, hrest⟩ := List.forall_mem_cons.1 h
    have hpassed := splitFrom_passes ht []
    rw [List.append_nil] at hpassed
    cases texts with
    | nil =>
      have hlast := hpassed []
      rw [List.append_nil, splitFrom, List.reverse_reverse] at hlast
      exact hlast
    | cons u texts =>
      obtain ⟨hquote, hl, hr⟩ := hbare
      have hne' : u :: texts ≠ [] := List.cons_ne_nil u texts
      rw [Text.join_cons [sep] t hne', List.append_assoc, List.singleton_append, hpassed, splitFrom,
        hquote, if_neg Bool.false_ne_true, if_neg (by simpa using hl), if_neg (by simpa using hr),
        if_pos (by simp), List.reverse_reverse, ih hne' hrest]

/-- An item of a list: white space around it does not belong to it, and a scan for commas passes it
and is at the depth of the list again. -/
structure Closed (item : Text) : Prop where
  trimmed : Text.Trimmed item item
  passes : Passes comma 0 item 0

instance (item : Text) : Decidable (Closed item) :=
  decidable_of_iff (Text.Trimmed item item ∧ Passes comma 0 item 0)
    ⟨fun h => ⟨h.1, h.2⟩, fun h => ⟨h.1, h.2⟩⟩

/-- A closed item is a list of one. -/
theorem Closed.splitTopLevel_eq (h : Closed item) : splitTopLevel comma item = [item] := by
  have hone : splitFrom comma ⟨[], 0, 0⟩ item = [item] :=
    splitFrom_join (by decide) (List.cons_ne_nil item []) (List.forall_mem_singleton.2 h.passes)
  rw [splitTopLevel, hone, List.map_singleton, h.trimmed.trim_eq]

/-- An item as it is written, with white space around it. -/
structure Padded where
  before : Text
  item : Text
  after : Text
  before_spaces : Text.Spaces Text.wideSpaces before
  closed : Closed item
  after_spaces : Text.Spaces Text.wideSpaces after

namespace Padded
variable (p : Padded)

/-- The bytes of the item and of the white space around it. -/
def text : Text := p.before ++ p.item ++ p.after

theorem passes_text : Passes comma 0 p.text 0 :=
  ((passes_spaces p.before_spaces).append p.closed.passes).append (passes_spaces p.after_spaces)

theorem trim_text : p.text.trim = p.item := by
  refine Text.Trimmed.trim_eq ⟨⟨p.before, p.after, p.before_spaces, p.after_spaces, rfl⟩, ?_, ?_⟩
  · exact p.closed.trimmed.start
  · exact p.closed.trimmed.finish

end Padded

/-- **Splitting is the inverse of joining.** Items that were joined by commas come out as they went
in, and what comes out of any text are pieces that join to the text, trimmed. -/
theorem splitTopLevel_inverts_join :
    (∀ items : List Padded, items ≠ [] →
      splitTopLevel comma (Text.join [comma] (items.map Padded.text)) = items.map Padded.item) ∧
    ∀ s : Text, ∃ pieces, Text.join [comma] pieces = s ∧
      pieces.map Text.trim = splitTopLevel comma s := by
  constructor
  · intro items hne
    have hpasses : ∀ t ∈ items.map Padded.text, Passes comma 0 t 0 :=
      List.forall_mem_map.2 fun p _ => p.passes_text
    rw [splitTopLevel, splitFrom_join (by decide) (by simpa using hne) hpasses, List.map_map]
    exact List.map_congr_left fun p _ => p.trim_text
  · intro s
    exact ⟨splitFrom comma ⟨[], 0, 0⟩ s, join_splitFrom comma ⟨[], 0, 0⟩ s, rfl⟩

/-- Three items with commas in them: between parentheses, in a string with an escaped quote, and at
a depth below that of the list. -/
def commaItems : List Padded :=
  [⟨[], [0x66, lparen, 0x61, comma, 0x62, rparen], [space], .nil, by decide +kernel,
      .byte (by decide) .nil⟩,
    ⟨[0xc2, 0xa0], [quote, comma, backslash, quote, quote], [tab], .single (by decide),
      by decide +kernel, .byte (by decide) .nil⟩,
    ⟨[], [rparen, comma, lparen], [], .nil, by decide +kernel, .nil⟩]

theorem splitTopLevel_commaItems :
    commaItems ≠ [] ∧ splitTopLevel comma (Text.join [comma] (commaItems.map Padded.text)) =
      commaItems.map Padded.item :=
  ⟨List.cons_ne_nil _ _, splitTopLevel_inverts_join.1 commaItems (List.cons_ne_nil _ _)⟩

end Script

end IndentedSass
