import IndentedSass.Style
import Mathlib.Data.List.Infix

/-!
# All styles denote the same sheet

The four styles lay out one sheet in different ways: they differ in white space, in comments and in
the semicolon after the last declaration of a block. `denoted` forgets exactly that. This module
shows that a sheet has one denotation, whatever the style.

The common ground is `Css.code`, the sheet without layout. `Denotes x c` states that a piece `x` of
output contributes `c` to the denotation, whatever follows it; pieces are put together with
`Denotes.append`. The three styles with line ends share one induction over the sheet
(`Blockwise.denotes_node`), the compressed style has its own.
-/

namespace IndentedSass
open Ascii

/-! ## What a text denotes -/

/-- The text without comments; `inside` says that it starts inside of one. -/
def withoutComments : (inside : Bool) → Text → Text
  | _, [] => []
  | false, slash :: asterisk :: s => withoutComments true s
  | false, c :: s => c :: withoutComments false s
  | true, asterisk :: slash :: s => withoutComments false s
  | true, _ :: s => withoutComments true s

/-- The text without white space. -/
def unspaced (s : Text) : Text := s.filter fun c => !Text.isSpaceByte c

/-- The text without the semicolons that a closing brace follows, be it after further such
semicolons. -/
def settled : Text → Text
  | [] => []
  | c :: s =>
    if c = semicolon ∧ (settled s).head? = some rbrace then settled s else c :: settled s

/-- What is left of a text without comments and white space. -/
def bare (s : Text) : Text := unspaced (withoutComments false s)

/-- What a style sheet denotes: comments, white space and last semicolons do not count. -/
def denoted (s : Text) : Text := settled (bare s)

/-- No comment starts in a text. -/
def NoComment (s : Text) : Prop := ¬ [slash, asterisk] <:+: s

/-- No comment ends in a text. -/
def NoCommentEnd (s : Text) : Prop := ¬ [asterisk, slash] <:+: s

theorem withoutComments_cons {c : UInt8} {s : Text}
    (h : c = slash → s.head? ≠ some asterisk) :
    withoutComments false (c :: s) = c :: withoutComments false s := by
  rw [withoutComments.eq_def]
  split
  · rename_i heq
    cases heq
  · rename_i s' heq
    cases heq
    exact absurd rfl (h rfl)
  · rename_i heq
    cases heq
    rfl
  all_goals
    rename_i hinside _
    cases hinside

theorem withoutComments_inside_cons {c : UInt8} {s : Text}
    (h : c = asterisk → s.head? ≠ some slash) :
    withoutComments true (c :: s) = withoutComments true s := by
  rw [withoutComments.eq_def]
  split
  · rename_i heq
    cases heq
  · rename_i hinside _
    cases hinside
  · rename_i hinside _
    cases hinside
  · rename_i s' heq
    cases heq
    exact absurd rfl (h rfl)
  · rename_i heq
    cases heq
    rfl

/-- A text in which no comment starts stays as it is. -/
theorem withoutComments_append {s t : Text} (hs : NoComment s) (ht : t.head? ≠ some asterisk) :
    withoutComments false (s ++ t) = s ++ withoutComments false t := by
  induction s with
  | nil => rfl
  | cons c s ih =>
    have hrest : NoComment s := fun hin => hs (hin.trans (List.infix_cons (List.infix_refl s)))
    rw [List.cons_append, withoutComments_cons, ih hrest]
    · rfl
    · rintro rfl hhead
      cases s with
      | nil => exact ht hhead
      | cons d s =>
        cases hhead
        exact hs ⟨[], s, rfl⟩

/-- Inside a comment a text is dropped unless the comment ends in it. -/
theorem withoutComments_inside_append {s t : Text} (hs : NoCommentEnd s)
    (ht : t.head? ≠ some slash) :
    withoutComments true (s ++ t) = withoutComments true t := by
  induction s with
  | nil => rfl
  | cons c s ih =>
    have hrest : NoCommentEnd s :=
      fun hin => hs (hin.trans (List.infix_cons (List.infix_refl s)))
    rw [List.cons_append, withoutComments_inside_cons, ih hrest]
    rintro rfl hhead
    cases s with
    | nil => exact ht hhead
    | cons d s =>
      cases hhead
      exact hs ⟨[], s, rfl⟩

theorem unspaced_append (s t : Text) : unspaced (s ++ t) = unspaced s ++ unspaced t :=
  List.filter_append s t

/-- Settling works from the end, so only what a text settles to matters to what comes before. -/
theorem settled_congr (c : Text) {s t : Text} (h : settled s = settled t) :
    settled (c ++ s) = settled (c ++ t) := by
  induction c with
  | nil => exact h
  | cons a c ih => rw [List.cons_append, List.cons_append, settled, settled, ih]

/-- The last semicolon of a block does not count. -/
theorem settled_semicolon_rbrace (s : Text) :
    settled (semicolon :: rbrace :: s) = settled (rbrace :: s) := by
  have hbrace : (settled (rbrace :: s)).head? = some rbrace := by
    rw [settled, if_neg]
    · rfl
    · rintro ⟨h, -⟩
      exact absurd h (by decide)
  rw [settled, if_pos ⟨rfl, hbrace⟩]

/-! ## Pieces of output -/

/-- A piece of output contributes `c` to the denotation, whatever follows it. -/
def Denotes (x c : Text) : Prop := ∀ y, denoted (x ++ y) = settled (c ++ bare y)

/-- Nothing but white space. -/
def IsGap (g : Text) : Prop := ∀ c ∈ g, Text.isSpaceByte c = true

instance (g : Text) : Decidable (IsGap g) :=
  List.decidableBAll (fun c => Text.isSpaceByte c = true) g

theorem isGap_nil : IsGap [] := by decide

theorem isGap_space : IsGap " " := by decide

theorem isGap_newline : IsGap "\n" := by decide

/-- What starts so cannot turn a slash before it into the start of a comment. -/
def Delimited (x : Text) : Prop := ∃ d s, x = d :: s ∧ d ≠ asterisk

/-- A piece contributes `c` in front of any piece that starts with a delimiter. -/
def DenotesBefore (p c : Text) : Prop :=
  ∀ x d, Delimited x → Denotes x d → Denotes (p ++ x) (c ++ d)

theorem Denotes.nil : Denotes [] [] := fun _ => rfl

theorem Denotes.append {x x' c c' : Text} (h : Denotes x c) (h' : Denotes x' c') :
    Denotes (x ++ x') (c ++ c') := by
  intro y
  rw [List.append_assoc, h, List.append_assoc]
  exact settled_congr c (h' y)

/-- A piece without slashes contributes its bytes but for white space. -/
theorem denotes_plain {x : Text} (h : slash ∉ x) : Denotes x (unspaced x) := by
  intro y
  rw [denoted, bare, bare, ← unspaced_append]
  congr 2
  induction x with
  | nil => rfl
  | cons c x ih =>
    rw [List.cons_append, withoutComments_cons, ih fun hx => h (List.mem_cons_of_mem c hx)]
    · rfl
    · rintro rfl
      exact absurd List.mem_cons_self h

theorem IsGap.slash_not_mem {g : Text} (hg : IsGap g) : slash ∉ g :=
  fun h => absurd (hg slash h) (by decide)

theorem IsGap.unspaced {g : Text} (hg : IsGap g) : unspaced g = [] := by
  refine List.filter_eq_nil_iff.mpr ?_
  intro c hc
  simp [hg c hc]

theorem IsGap.denotes {g : Text} (hg : IsGap g) : Denotes g [] :=
  hg.unspaced ▸ denotes_plain hg.slash_not_mem

theorem IsGap.append {g g' : Text} (hg : IsGap g) (hg' : IsGap g') : IsGap (g ++ g') := by
  intro c hc
  rcases List.mem_append.mp hc with hc | hc
  · exact hg c hc
  · exact hg' c hc

/-- White space in front of a piece makes no difference. -/
theorem Denotes.after_gap {g x c : Text} (h : Denotes x c) (hg : IsGap g) : Denotes (g ++ x) c :=
  hg.denotes.append h

theorem DenotesBefore.denotes {p c x d : Text} (h : DenotesBefore p c) (hx : Delimited x)
    (hd : Denotes x d) : Denotes (p ++ x) (c ++ d) := h x d hx hd

/-- A text of the sheet, such as a name or a selector. -/
theorem denotesBefore_text {t : Text} (ht : NoComment t) : DenotesBefore t (unspaced t) := by
  rintro x c ⟨d, s, rfl, hd⟩ hx y
  have hhead : (d :: s ++ y).head? ≠ some asterisk := by
    intro h
    exact hd (Option.some.inj h)
  rw [denoted, bare, List.append_assoc, withoutComments_append ht hhead, unspaced_append,
    List.append_assoc]
  exact settled_congr _ (hx y)

theorem denotesBefore_nil : DenotesBefore [] [] := fun _ _ _ h => h

/-- Pieces with a delimiter between them, which white space may follow. -/
theorem denotesBefore_join {b : UInt8} {g : Text} (hb : Denotes [b] [b]) (hstar : b ≠ asterisk)
    (hg : IsGap g) {ps cs : List Text} (h : List.Forall₂ DenotesBefore ps cs) :
    DenotesBefore (Text.join (b :: g) ps) (Text.join [b] cs) := by
  induction h with
  | nil => exact denotesBefore_nil
  | @cons p c ps cs hp hrest ih =>
    cases hrest with
    | nil => exact hp
    | cons _ _ =>
      intro x d hx hd
      have htail := hb.append ((ih x d hx hd).after_gap hg)
      have := hp.denotes ⟨b, _, rfl, hstar⟩ htail
      simpa [Text.join] using this

theorem denotesBefore_joinTexts {b : UInt8} {g : Text} (hb : Denotes [b] [b]) (hstar : b ≠ asterisk)
    (hg : IsGap g) {ts : List Text} (h : ∀ t ∈ ts, NoComment t) :
    DenotesBefore (Text.join (b :: g) ts) (Text.join [b] (ts.map unspaced)) := by
  refine denotesBefore_join hb hstar hg ?_
  induction ts with
  | nil => exact .nil
  | cons t ts ih =>
    exact .cons (denotesBefore_text (h t List.mem_cons_self))
      (ih fun t' ht' => h t' (List.mem_cons_of_mem t ht'))

/-! ### Rows of pieces -/

/-- What a row of pieces contributes, one after the other. -/
inductive DenotesAll : List Text → Text → Prop
  | nil : DenotesAll [] []
  | cons {x c : Text} {xs : List Text} {d : Text} (first : Denotes x c) (rest : DenotesAll xs d) :
    DenotesAll (x :: xs) (c ++ d)

namespace DenotesAll

theorem single {x c : Text} (h : Denotes x c) : DenotesAll [x] c :=
  List.append_nil c ▸ cons h nil

theorem append {xs ys : List Text} {c d : Text} (h : DenotesAll xs c) (h' : DenotesAll ys d) :
    DenotesAll (xs ++ ys) (c ++ d) := by
  induction h with
  | nil => exact h'
  | cons first _ ih =>
    rw [List.append_assoc]
    exact cons first ih

theorem join {xs : List Text} {c : Text} (h : DenotesAll xs c) {sep : Text}
    (hsep : IsGap sep) : Denotes (Text.join sep xs) c := by
  induction h with
  | nil => exact Denotes.nil
  | cons first rest ih =>
    cases rest with
    | nil => simpa [Text.join] using first
    | cons second more => simpa [Text.join] using first.append (ih.after_gap hsep)

theorem endLines {xs : List Text} {c : Text} (h : DenotesAll xs c) :
    Denotes (xs.flatMap Style.Expanded.endLine) c := by
  induction h with
  | nil => exact Denotes.nil
  | cons first _ ih =>
    rw [List.flatMap_cons, Style.Expanded.endLine, List.append_assoc]
    exact first.append (ih.after_gap isGap_newline)

end DenotesAll

/-! ### Comments -/

theorem withoutComments_inside_gap {g : Text} (hg : IsGap g) (t : Text) :
    withoutComments true (g ++ t) = withoutComments true t := by
  induction g with
  | nil => rfl
  | cons c g ih =>
    rw [List.cons_append, withoutComments_inside_cons,
      ih fun d hd => hg d (List.mem_cons_of_mem c hd)]
    rintro rfl
    exact absurd (hg asterisk List.mem_cons_self) (by decide)

theorem withoutComments_inside_space (s : Text) :
    withoutComments true (space :: s) = withoutComments true s :=
  withoutComments_inside_cons fun h => absurd h (by decide)

/-- Lines with something harmless between them do not end a comment. -/
theorem withoutComments_inside_join {sep : Text} {d : UInt8} {s : Text} (hsep : sep = d :: s)
    (hd : d ≠ slash) (hinside : ∀ t, withoutComments true (sep ++ t) = withoutComments true t)
    {lines : List Text} (h : ∀ l ∈ lines, NoCommentEnd l) {t : Text}
    (ht : t.head? ≠ some slash) :
    withoutComments true (Text.join sep lines ++ t) = withoutComments true t := by
  fun_induction Text.join sep lines with
  | case1 => rfl
  | case2 line => exact withoutComments_inside_append (h line List.mem_cons_self) ht
  | case3 line next rest ih =>
    have hhead : (sep ++ (Text.join sep (next :: rest) ++ t)).head? ≠ some slash := by
      rw [hsep]
      exact fun he => hd (Option.some.inj he)
    rw [List.append_assoc, List.append_assoc,
      withoutComments_inside_append (h line List.mem_cons_self) hhead, hinside]
    exact ih fun l hl => h l (List.mem_cons_of_mem line hl)

/-- A further line of a comment starts with a star, which a space keeps from ending it. -/
theorem withoutComments_inside_star {indent : Text} (hindent : IsGap indent) (t : Text) :
    withoutComments true (("\n" ++ indent ++ " * ") ++ t) = withoutComments true t := by
  have hgap : IsGap ([newline] ++ indent ++ [space]) :=
    (isGap_newline.append hindent).append isGap_space
  have hsep : (("\n" ++ indent ++ " * ") ++ t : Text) =
      ([newline] ++ indent ++ [space]) ++ (asterisk :: space :: t) := by
    show (([newline] ++ indent ++ [space, asterisk, space]) ++ t : Text) = _
    simp
  -- the star would end the comment only if a slash came next
  rw [hsep, withoutComments_inside_gap hgap, withoutComments_inside_cons,
    withoutComments_inside_space]
  exact fun _ he => absurd (Option.some.inj he) (by decide)

/-- A comment contributes nothing. -/
theorem denotes_comment {indent : Text} (hindent : IsGap indent) {lines : List Text}
    (h : ∀ l ∈ lines, NoCommentEnd l) : Denotes (Style.comment indent lines) [] := by
  have hbody : Denotes ("/* " ++ (Text.join ("\n" ++ indent ++ " * ") lines ++ " */")) [] := by
    intro y
    have hclose : withoutComments true
        (Text.join ("\n" ++ indent ++ " * ") lines ++ space :: asterisk :: slash :: y) =
        withoutComments false y := by
      have hsep : ("\n" ++ indent ++ " * " : Text) = newline :: (indent ++ " * ") := rfl
      rw [withoutComments_inside_join hsep (by decide) (withoutComments_inside_star hindent) h,
        withoutComments_inside_space]
      · rfl
      · exact fun he => absurd (Option.some.inj he) (by decide)
    have hopen : withoutComments false
        (("/* " ++ (Text.join ("\n" ++ indent ++ " * ") lines ++ " */")) ++ y) =
        withoutComments false y := by
      rw [List.append_assoc, List.append_assoc]
      show withoutComments true
        (space :: (Text.join ("\n" ++ indent ++ " * ") lines ++
          space :: asterisk :: slash :: y)) = _
      rw [withoutComments_inside_space, hclose]
    rw [denoted, bare, hopen]
    rfl
  have := hbody.after_gap hindent
  simpa [Style.comment] using this

/-! ## The sheet without layout -/

namespace Css

mutual

/-- No text of a node starts a comment, and no comment ends before its end. -/
def Clean : Css → Prop
  | .rule selectors body => (∀ line ∈ selectors, ∀ s ∈ line, NoComment s) ∧ AllClean body
  | .property name value => NoComment name ∧ NoComment value
  | .directive text body => NoComment text ∧ AllClean body
  | .comment lines => ∀ l ∈ lines, NoCommentEnd l

/-- All nodes are clean. -/
def AllClean : List Css → Prop
  | [] => True
  | c :: rest => c.Clean ∧ AllClean rest

end

/-- The selectors of a rule without layout. -/
def selectorsCode (selectors : List (List Text)) : Text :=
  Text.join [comma] (selectors.map fun line => Text.join [comma] (line.map unspaced))

/-- A declaration without layout and semicolon; nothing for other nodes. -/
def declarationCode? : Css → Option Text
  | .property name value => some (unspaced name ++ colon :: unspaced value)
  | _ => none

/-- The declarations of a block without layout, a semicolon after each. -/
def declarationsCode (body : List Css) : Text :=
  (body.filterMap declarationCode?).flatMap (· ++ [semicolon])

/-- A rule's own block without layout, if it has declarations. -/
def ownCode (selectors : List (List Text)) (body : List Css) : Text :=
  if hasProperties body then
    selectorsCode selectors ++ (lbrace :: (declarationsCode body ++ [rbrace]))
  else []

mutual

/-- A rule or directive without layout. -/
def code : Css → Text
  | .rule selectors body => ownCode selectors body ++ codes body
  | .directive text [] => unspaced text ++ [semicolon]
  | .directive text (first :: rest) =>
    unspaced text ++
      (lbrace :: (declarationsCode (first :: rest) ++ codes (first :: rest) ++ [rbrace]))
  | .property .. => []
  | .comment _ => []

/-- The rules and directives among some nodes without layout. -/
def codes : List Css → Text
  | [] => []
  | c :: rest => c.code ++ codes rest

end

theorem declarationCode?_isSome (c : Css) : (declarationCode? c).isSome = c.isProperty := by
  cases c <;> rfl

end Css

/-! ### The parts that the styles share -/

theorem denotes_lbrace : Denotes [lbrace] [lbrace] := denotes_plain (by decide)

theorem denotes_rbrace : Denotes [rbrace] [rbrace] := denotes_plain (by decide)

theorem denotes_semicolon : Denotes [semicolon] [semicolon] := denotes_plain (by decide)

theorem denotes_comma : Denotes [comma] [comma] := denotes_plain (by decide)

theorem denotes_colon : Denotes [colon] [colon] := denotes_plain (by decide)

theorem denotesBefore_selectors {g g' : Text} (hg : IsGap g) (hg' : IsGap g')
    {selectors : List (List Text)} (h : ∀ line ∈ selectors, ∀ s ∈ line, NoComment s) :
    DenotesBefore (Css.joinSelectors (comma :: g) (comma :: g') selectors)
      (Css.selectorsCode selectors) := by
  refine denotesBefore_join denotes_comma (by decide) hg' ?_
  induction selectors with
  | nil => exact .nil
  | cons line selectors ih =>
    exact .cons (denotesBefore_joinTexts denotes_comma (by decide) hg (h line List.mem_cons_self))
      (ih fun l hl => h l (List.mem_cons_of_mem line hl))

theorem denotes_declaration {name value : Text} (hname : NoComment name)
    (hvalue : NoComment value) :
    Denotes (Style.declaration name value)
      (unspaced name ++ colon :: unspaced value ++ [semicolon]) := by
  have hend := (denotesBefore_text hvalue).denotes ⟨semicolon, [], rfl, by decide⟩ denotes_semicolon
  have hcolon := denotes_colon.append (hend.after_gap isGap_space)
  have := (denotesBefore_text hname).denotes ⟨colon, _, rfl, by decide⟩ hcolon
  show Denotes (name ++ colon :: " " ++ value ++ [semicolon]) _
  simpa using this

theorem denotesAll_inlines {indent : Text} (hindent : IsGap indent) {body : List Css}
    (h : Css.AllClean body) :
    DenotesAll (Style.inlines indent body) (Css.declarationsCode body) := by
  induction body with
  | nil => exact .nil
  | cons c body ih =>
    have hrest := ih h.2
    have hc := h.1
    cases c with
    | rule selectors inner => exact hrest
    | directive text inner => exact hrest
    | property name value => exact .cons ((denotes_declaration hc.1 hc.2).after_gap hindent) hrest
    | comment lines => exact .cons (denotes_comment hindent hc) hrest

/-- A header, then a block with its braces, in whatever layout. -/
theorem DenotesBefore.block {lead header h opening inner c closing : Text}
    (hheader : DenotesBefore header h) (hlead : IsGap lead) (hopen : Denotes opening [lbrace])
    (hstart : Delimited opening) (hinner : Denotes inner c) (hclose : Denotes closing [rbrace]) :
    Denotes (lead ++ header ++ opening ++ inner ++ closing) (h ++ (lbrace :: (c ++ [rbrace]))) := by
  have hblock := (hopen.append hinner).append hclose
  obtain ⟨d, s, rfl, hd⟩ := hstart
  have := (hheader.denotes ⟨d, _, rfl, hd⟩ hblock).after_gap hlead
  simpa using this

/-- A rule's own block, in whatever layout. -/
theorem denotesAll_own {lead g g' opening inner closing : Text} {selectors : List (List Text)}
    {body : List Css} (hlead : IsGap lead) (hg : IsGap g) (hg' : IsGap g')
    (hselectors : ∀ line ∈ selectors, ∀ s ∈ line, NoComment s)
    (hopen : Denotes opening [lbrace]) (hstart : Delimited opening)
    (hinner : Denotes inner (Css.declarationsCode body)) (hclose : Denotes closing [rbrace]) :
    DenotesAll (if Css.hasProperties body then
        [lead ++ Css.joinSelectors (comma :: g) (comma :: g') selectors ++ opening ++ inner ++
          closing]
      else []) (Css.ownCode selectors body) := by
  rw [Css.ownCode]
  split
  · exact .single
      ((denotesBefore_selectors hg hg' hselectors).block hlead hopen hstart hinner hclose)
  · exact .nil

/-! ## The styles with line ends -/

/-- What the three styles with line ends have in common: how the text of a node is made from the
texts of its parts. The index `ι` is what a style hands down to nested nodes. -/
structure Blockwise {ι : Type} (node : ι → Css → List Text) (nodes : ι → List Css → List Text) :
    Prop where
  nil : ∀ i, nodes i [] = []
  cons : ∀ i c rest, nodes i (c :: rest) = node i c ++ nodes i rest
  property : ∀ i name value, node i (.property name value) = []
  comment : ∀ i lines, node i (.comment lines) = []
  rule : ∀ i selectors body, (Css.rule selectors body).Clean → ∃ own j,
    node i (.rule selectors body) = own ++ nodes j body ∧
    DenotesAll own (Css.ownCode selectors body)
  statement : ∀ i text, ∃ lead,
    node i (.directive text []) = [lead ++ text ++ [semicolon]] ∧ IsGap lead
  block : ∀ i text first rest, ∃ lead opening sep indent j closing,
    node i (.directive text (first :: rest)) = [lead ++ text ++ opening ++
      Text.join sep (Style.inlines indent (first :: rest) ++ nodes j (first :: rest)) ++ closing] ∧
    IsGap lead ∧ Denotes opening [lbrace] ∧ Delimited opening ∧ IsGap sep ∧ IsGap indent ∧
    Denotes closing [rbrace]

namespace Blockwise
variable {ι : Type} {node : ι → Css → List Text} {nodes : ι → List Css → List Text}

mutual

/-- **A node denotes its code**, at whatever indentation. -/
theorem denotes_node (style : Blockwise node nodes) (i : ι) :
    ∀ c : Css, c.Clean → DenotesAll (node i c) c.code
  | .rule selectors body, h => by
    obtain ⟨own, j, hnode, hown⟩ := style.rule i selectors body h
    rw [hnode, Css.code]
    exact hown.append (denotes_nodes style j body h.2)
  | .directive text [], h => by
    obtain ⟨lead, hnode, hlead⟩ := style.statement i text
    have htext := (denotesBefore_text h.1).denotes ⟨_, _, rfl, by decide⟩ denotes_semicolon
    rw [hnode, Css.code, List.append_assoc]
    exact .single (htext.after_gap hlead)
  | .directive text (first :: rest), h => by
    obtain ⟨lead, opening, sep, indent, j, closing, hnode, hlead, hopen, hstart, hsep, hindent,
      hclose⟩ := style.block i text first rest
    have hinner := ((denotesAll_inlines hindent h.2).append
      (denotes_nodes style j (first :: rest) h.2)).join hsep
    rw [hnode, Css.code]
    exact .single ((denotesBefore_text h.1).block hlead hopen hstart hinner hclose)
  | .property name value, _ => by
    rw [style.property, Css.code]
    exact .nil
  | .comment lines, _ => by
    rw [style.comment, Css.code]
    exact .nil

theorem denotes_nodes (style : Blockwise node nodes) (i : ι) :
    ∀ body : List Css, Css.AllClean body → DenotesAll (nodes i body) (Css.codes body)
  | [], _ => by
    rw [style.nil, Css.codes]
    exact .nil
  | c :: rest, h => by
    rw [style.cons, Css.codes]
    exact (denotes_node style i c h.1).append (denotes_nodes style i rest h.2)

end

/-- A node of the outermost level, where comments stand alone. -/
theorem denotes_top (style : Blockwise node nodes) (i : ι) {c : Css} (h : c.Clean)
    (hroot : c.isProperty = false) :
    DenotesAll ((Style.inline? [] c).toList ++ node i c) c.code := by
  have hnode := style.denotes_node i c h
  cases c with
  | rule selectors body => exact hnode
  | directive text body => exact hnode
  | property name value => cases hroot
  | comment lines => exact .cons (denotes_comment isGap_nil h) hnode

end Blockwise

theorem DenotesAll.eq_nil {c : Text} (h : DenotesAll [] c) : c = [] := by
  cases h
  rfl

theorem DenotesAll.joinBlocks {xs : List Text} {c : Text} (h : DenotesAll xs c) :
    Denotes (Style.joinBlocks xs) c := by
  cases xs with
  | nil =>
    rw [h.eq_nil]
    exact Denotes.nil
  | cons x xs =>
    have hblank : IsGap "\n\n" := by decide
    have := (h.join hblank).append isGap_newline.denotes
    rwa [List.append_nil] at this

section Sheets
variable {top : Css → List Text} {sheet : List Css}

/-- A sheet denotes its code if each node of the outermost level does. -/
theorem denotesAll_sheet (htop : ∀ c ∈ sheet, DenotesAll (top c) c.code) :
    DenotesAll (sheet.flatMap top) (Css.codes sheet) := by
  induction sheet with
  | nil => exact .nil
  | cons c sheet ih =>
    rw [List.flatMap_cons, Css.codes]
    exact (htop c List.mem_cons_self).append (ih fun d hd => htop d (List.mem_cons_of_mem c hd))

/-- The same where the lines of each node are first joined to one block. -/
theorem denotesAll_linesToBlocks (htop : ∀ c ∈ sheet, DenotesAll (top c) c.code) :
    DenotesAll (Style.linesToBlocks (sheet.map top)) (Css.codes sheet) := by
  induction sheet with
  | nil => exact .nil
  | cons c sheet ih =>
    have hrest := ih fun d hd => htop d (List.mem_cons_of_mem c hd)
    have hc := htop c List.mem_cons_self
    rw [List.map_cons, Css.codes]
    cases hlines : top c with
    | nil =>
      rw [hlines] at hc
      rw [hc.eq_nil]
      exact hrest
    | cons x xs =>
      rw [hlines] at hc
      exact .cons (hc.join isGap_newline) hrest

end Sheets

/-! ### The three styles -/

theorem isGap_indentUnit : IsGap Style.indentUnit := by decide

theorem isGap_times (depth : Nat) : IsGap (Text.times depth Style.indentUnit) := by
  intro c hc
  obtain ⟨unit, hunit, hc⟩ := List.mem_flatten.mp hc
  rw [List.eq_of_mem_replicate hunit] at hc
  exact isGap_indentUnit c hc

theorem denotes_openLine : Denotes " \x7b\n" [lbrace] := denotes_plain (by decide)

theorem denotes_openInline : Denotes " \x7b " [lbrace] := denotes_plain (by decide)

theorem denotes_closeInline : Denotes " \x7d" [rbrace] := denotes_plain (by decide)

theorem blockwise_nested : Blockwise Style.Nested.node Style.Nested.nodes where
  nil _ := by rw [Style.Nested.nodes]
  cons _ _ _ := by rw [Style.Nested.nodes]
  property _ _ _ := by rw [Style.Nested.node]
  comment _ _ := by rw [Style.Nested.node]
  rule depth selectors body h := by
    have hindent := isGap_times depth
    have hinner := (denotesAll_inlines (hindent.append isGap_indentUnit) h.2).join isGap_newline
    refine ⟨_, depth + 1, by rw [Style.Nested.node], ?_⟩
    exact denotesAll_own hindent isGap_space (isGap_newline.append hindent) h.1 denotes_openLine
      ⟨space, _, rfl, by decide⟩ hinner denotes_closeInline
  statement depth text := ⟨_, by rw [Style.Nested.node]; rfl, isGap_times depth⟩
  block depth text first rest :=
    ⟨_, _, _, _, depth + 1, _, by rw [Style.Nested.node], isGap_times depth, denotes_openLine,
      ⟨space, _, rfl, by decide⟩, isGap_newline, (isGap_times depth).append isGap_indentUnit,
      denotes_closeInline⟩

/-- The expanded style hands down its indentation, which is white space. -/
theorem blockwise_expanded :
    Blockwise (fun indent : { g : Text // IsGap g } => Style.Expanded.node indent.1)
      (fun indent => Style.Expanded.nodes indent.1) where
  nil _ := by rw [Style.Expanded.nodes]
  cons _ _ _ := by rw [Style.Expanded.nodes]
  property _ _ _ := by rw [Style.Expanded.node]
  comment _ _ := by rw [Style.Expanded.node]
  rule indent selectors body h := by
    obtain ⟨indent, hindent⟩ := indent
    have hinner := (denotesAll_inlines (hindent.append isGap_indentUnit) h.2).endLines
    refine ⟨_, ⟨indent, hindent⟩, by rw [Style.Expanded.node], ?_⟩
    have := denotesAll_own hindent isGap_space (isGap_newline.append hindent) h.1 denotes_openLine
      ⟨space, _, rfl, by decide⟩ hinner (denotes_rbrace.after_gap hindent)
    simp only [← List.append_assoc] at this
    exact this
  statement indent text := ⟨_, by rw [Style.Expanded.node]; rfl, indent.2⟩
  block indent text first rest := by
    have hinner := indent.2.append isGap_indentUnit
    refine ⟨_, _, _, _, ⟨_, hinner⟩, "\n" ++ indent.1 ++ [rbrace], ?_, indent.2, denotes_openLine,
      ⟨space, _, rfl, by decide⟩, isGap_newline, hinner, ?_⟩
    · rw [Style.Expanded.node, ← List.append_assoc, ← List.append_assoc]
      rfl
    · exact denotes_rbrace.after_gap (isGap_newline.append indent.2)

theorem blockwise_compact :
    Blockwise (fun _ : Unit => Style.Compact.node) (fun _ => Style.Compact.nodes) where
  nil _ := by rw [Style.Compact.nodes]
  cons _ _ _ := by rw [Style.Compact.nodes]
  property _ _ _ := by rw [Style.Compact.node]
  comment _ _ := by rw [Style.Compact.node]
  rule _ selectors body h := by
    have hinner := (denotesAll_inlines isGap_nil h.2).join isGap_space
    refine ⟨_, (), by rw [Style.Compact.node], ?_⟩
    exact denotesAll_own isGap_nil isGap_space isGap_space h.1 denotes_openInline
      ⟨space, _, rfl, by decide⟩ hinner denotes_closeInline
  statement _ text := ⟨[], by rw [Style.Compact.node]; rfl, isGap_nil⟩
  block _ text first rest :=
    ⟨[], _, _, _, (), _, by rw [Style.Compact.node]; rfl, isGap_nil, denotes_openInline,
      ⟨space, _, rfl, by decide⟩, isGap_space, isGap_nil, denotes_closeInline⟩

/-! ## The compressed style -/

namespace Css

/-- Declarations with semicolons between them, or one after each. -/
theorem join_semicolon {cs : List Text} (h : cs ≠ []) :
    Text.join [semicolon] cs ++ [semicolon] = cs.flatMap (· ++ [semicolon]) := by
  fun_induction Text.join [semicolon] cs with
  | case1 => exact absurd rfl h
  | case2 c => simp
  | case3 c next rest ih =>
    rw [List.append_assoc, ih (List.cons_ne_nil next rest)]
    rfl

theorem filterMap_declarationCode?_eq_nil {body : List Css} :
    body.filterMap declarationCode? = [] ↔ hasProperties body = false := by
  simp [hasProperties, ← declarationCode?_isSome]

/-- Where there are declarations, a semicolon after the last makes the separated ones ended. -/
theorem join_declarationCode {body : List Css} (h : hasProperties body = true) :
    Text.join [semicolon] (body.filterMap declarationCode?) ++ [semicolon] =
      declarationsCode body := by
  refine join_semicolon fun hnil => ?_
  rw [filterMap_declarationCode?_eq_nil, h] at hnil
  cases hnil

end Css

namespace Style.Compressed

theorem declarations_of_none {body : List Css} (h : Css.hasProperties body = false) :
    declarations body = [] := by
  have : body.filterMap declaration? = [] := by
    rw [List.filterMap_eq_nil_iff]
    intro c hc
    have hproperty := List.any_eq_false.mp h c hc
    cases c with
    | property name value => exact absurd rfl hproperty
    | rule | directive | comment => rfl
  rw [declarations, this]
  rfl

/-- The declarations of a block, in front of what ends the last of them. -/
theorem denotesBefore_declarations {body : List Css} (h : Css.AllClean body) :
    DenotesBefore (declarations body)
      (Text.join [semicolon] (body.filterMap Css.declarationCode?)) := by
  refine denotesBefore_join denotes_semicolon (by decide) isGap_nil ?_
  induction body with
  | nil => exact .nil
  | cons c body ih =>
    have hrest := ih h.2
    have hc := h.1
    cases c with
    | rule selectors inner => exact hrest
    | directive text inner => exact hrest
    | comment lines => exact hrest
    | property name value =>
      refine .cons ?_ hrest
      intro x d hx hd
      have hvalue := denotes_colon.append ((denotesBefore_text hc.2).denotes hx hd)
      have := (denotesBefore_text hc.1).denotes ⟨colon, _, rfl, by decide⟩ hvalue
      show Denotes (name ++ [colon] ++ value ++ x) _
      simpa using this

theorem denotes_separated {body : List Css} (h : Css.AllClean body)
    (hproperties : Css.hasProperties body = true) :
    Denotes (declarations body ++ [semicolon]) (Css.declarationsCode body) := by
  rw [← Css.join_declarationCode hproperties]
  exact (denotesBefore_declarations h).denotes ⟨semicolon, [], rfl, by decide⟩ denotes_semicolon

/-- The closing brace stands for the semicolon that the last declaration lacks. -/
theorem denotes_closed {body : List Css} (h : Css.AllClean body) :
    Denotes (declarations body ++ [rbrace]) (Css.declarationsCode body ++ [rbrace]) := by
  cases hproperties : Css.hasProperties body with
  | false =>
    rw [declarations_of_none hproperties, Css.declarationsCode,
      Css.filterMap_declarationCode?_eq_nil.mpr hproperties]
    exact denotes_rbrace
  | true =>
    -- this is where the denotation has to forget a semicolon
    have hbrace : Denotes [rbrace] [semicolon, rbrace] := fun y =>
      (denotes_rbrace y).trans (settled_semicolon_rbrace (bare y)).symm
    have := (denotesBefore_declarations h).denotes ⟨rbrace, [], rfl, by decide⟩ hbrace
    rw [← Css.join_declarationCode hproperties]
    simpa using this

/-- Declarations and comments alone leave nothing to nest. -/
theorem nothing_nested {body : List Css} (h : body.any (fun c => !c.isInline) = false) :
    nodes body = [] ∧ Css.codes body = [] := by
  induction body with
  | nil => exact ⟨by rw [nodes], by rw [Css.codes]⟩
  | cons c body ih =>
    rw [List.any_cons, Bool.or_eq_false_iff] at h
    obtain ⟨hnodes, hcodes⟩ := ih h.2
    rw [nodes, Css.codes, hnodes, hcodes]
    cases c with
    | rule | directive => cases h.1
    | property | comment => exact ⟨by rw [node]; rfl, by rw [Css.code]; rfl⟩

/-- The inner part of a block and the brace that closes it. -/
theorem denotes_inner {body : List Css} (h : Css.AllClean body)
    (hnodes : Denotes (nodes body) (Css.codes body)) :
    Denotes (declarations body ++ separator body ++ nodes body ++ [rbrace])
      (Css.declarationsCode body ++ Css.codes body ++ [rbrace]) := by
  cases hproperties : Css.hasProperties body with
  | false =>
    rw [separator, hproperties, declarations_of_none hproperties, Css.declarationsCode,
      Css.filterMap_declarationCode?_eq_nil.mpr hproperties]
    exact hnodes.append denotes_rbrace
  | true =>
    rw [separator, hproperties]
    cases hnested : body.any (fun c => !c.isInline) with
    | false =>
      obtain ⟨hnone, hcode⟩ := nothing_nested hnested
      rw [hnone, hcode]
      simpa using denotes_closed h
    -- with something nested, the last declaration has a semicolon of its own
    | true => exact ((denotes_separated h hproperties).append hnodes).append denotes_rbrace

mutual

/-- **A node denotes its code** in the compressed style, too. -/
theorem denotes_node : ∀ c : Css, c.Clean → Denotes (node c) c.code
  | .rule selectors body, h => by
    have hnodes := denotes_nodes body h.2
    rw [node, Css.code, Css.ownCode]
    split
    · have hblock := denotes_lbrace.append (denotes_closed h.2)
      have hown := (denotesBefore_selectors isGap_nil isGap_nil h.1).denotes
        ⟨lbrace, _, rfl, by decide⟩ hblock
      show Denotes (Css.joinSelectors [comma] [comma] selectors ++ lbrace :: declarations body ++
        rbrace :: nodes body) _
      simpa using hown.append hnodes
    · exact hnodes
  | .directive text [], h => by
    rw [node, Css.code]
    exact (denotesBefore_text h.1).denotes ⟨semicolon, [], rfl, by decide⟩ denotes_semicolon
  | .directive text (first :: rest), h => by
    have hblock := denotes_lbrace.append (denotes_inner h.2 (denotes_nodes (first :: rest) h.2))
    have := (denotesBefore_text h.1).denotes ⟨lbrace, _, rfl, by decide⟩ hblock
    rw [node, Css.code]
    simpa using this
  | .property name value, _ => by
    rw [node, Css.code]
    exact Denotes.nil
  | .comment lines, _ => by
    rw [node, Css.code]
    exact Denotes.nil

theorem denotes_nodes : ∀ body : List Css, Css.AllClean body → Denotes (nodes body) (Css.codes body)
  | [], _ => by
    rw [nodes, Css.codes]
    exact Denotes.nil
  | c :: rest, h => by
    rw [nodes, Css.codes]
    exact (denotes_node c h.1).append (denotes_nodes rest h.2)

end

end Style.Compressed

/-! ## Agreement -/

section Agreement
variable {sheet : List Css}

theorem Css.AllClean.mem (h : Css.AllClean sheet) {c : Css} (hc : c ∈ sheet) : c.Clean := by
  induction sheet with
  | nil => cases hc
  | cons d sheet ih =>
    rcases List.mem_cons.mp hc with rfl | hc
    · exact h.1
    · exact ih h.2 hc

/-- **Every style denotes the code of the sheet.** -/
theorem Style.denotes_render (style : Style) (hroot : ∀ c ∈ sheet, c.isProperty = false)
    (hclean : Css.AllClean sheet) : Denotes (style.render sheet) (Css.codes sheet) := by
  cases style with
  | nested =>
    exact (denotesAll_linesToBlocks fun c hc =>
      blockwise_nested.denotes_top 0 (hclean.mem hc) (hroot c hc)).joinBlocks
  | expanded =>
    exact (denotesAll_sheet fun c hc =>
      blockwise_expanded.denotes_top ⟨[], isGap_nil⟩ (hclean.mem hc) (hroot c hc)).joinBlocks
  | compact =>
    exact (denotesAll_linesToBlocks fun c hc =>
      blockwise_compact.denotes_top () (hclean.mem hc) (hroot c hc)).joinBlocks
  | compressed =>
    -- no declaration stands outside of blocks, so nothing has to be separated
    have hnone : Css.hasProperties sheet = false := by
      rw [Css.hasProperties, List.any_eq_false]
      intro c hc
      rw [hroot c hc]
      decide
    show Denotes (Compressed.declarations sheet ++ Compressed.separator sheet ++
      Compressed.nodes sheet) _
    rw [Compressed.declarations_of_none hnone, Compressed.separator, hnone]
    exact Compressed.denotes_nodes sheet hclean

/-- **All styles denote the same sheet.** Declarations stand in blocks, no text of the sheet starts
a comment and no comment ends before its end; then the texts in any two styles differ in comments,
white space and last semicolons only. -/
theorem denoted_render (s t : Style) (hroot : ∀ c ∈ sheet, c.isProperty = false)
    (hclean : Css.AllClean sheet) : denoted (s.render sheet) = denoted (t.render sheet) := by
  have denoted_eq (style : Style) : denoted (style.render sheet) = settled (Css.codes sheet) := by
    have := style.denotes_render hroot hclean []
    rwa [List.append_nil, show bare [] = [] from rfl, List.append_nil] at this
  rw [denoted_eq s, denoted_eq t]

end Agreement

/-- A sheet with comments, nested rules and directives with and without a body. -/
def mixedSheet : List Css :=
  [.comment ["all; in\x7d", "one"],
    .rule [["a", "b > c"], ["d"]]
      [.property "p" "1 / 2", .comment ["inner"], .rule [["a e"]] [.property "q" "url(x)"]],
    .directive "@media print" [.property "r" "3", .rule [["f"]] [.property "s" "4"]],
    .directive "@charset utf-8" []]

theorem denoted_render_mixed :
    (∀ c ∈ mixedSheet, c.isProperty = false) ∧ Css.AllClean mixedSheet ∧
      denoted (Style.nested.render mixedSheet) = denoted (Style.compressed.render mixedSheet) := by
  have hroot : ∀ c ∈ mixedSheet, c.isProperty = false := by decide
  have hclean : Css.AllClean mixedSheet := by
    simp only [mixedSheet, Css.AllClean, Css.Clean, NoComment, NoCommentEnd]
    decide
  exact ⟨hroot, hclean, denoted_render .nested .compressed hroot hclean⟩

end IndentedSass
