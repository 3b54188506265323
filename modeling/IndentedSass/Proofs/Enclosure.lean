import IndentedSass.Proofs.StyleAgreement
import IndentedSass.Proofs.TreeCache

/-!
# The blocks around a declaration

The text of a sheet is cut into pieces: declarations, comments, directives without a block, blocks
with a header, and white space and semicolons between them (`Piece`). The pieces say which blocks a
declaration stands in, whatever braces the texts of the sheet may contain.

In every style, a declaration stands in the blocks of the directives around it and, if it is right
beneath a rule, in a block of that rule's selectors (`Style.headers`). A rule further out leaves no
header: when a directive stands between a declaration and the rule it belongs to, the selectors are
lost.
-/

namespace IndentedSass
open Ascii

/-! ## Declarations in a sheet -/

/-- A node that may stand around others. -/
inductive Around where
  | rule (selectors : List (List Text))
  | directive (text : Text)
  deriving DecidableEq

/-- The text of a directive. -/
def Around.directive? : Around → Option Text
  | .rule _ => none
  | .directive text => some text

/-- A declaration of a sheet and what stands around it, the outermost first. -/
structure Placed where
  around : List Around
  name : Text
  value : Text
  deriving DecidableEq

def Placed.within (a : Around) (p : Placed) : Placed := { p with around := a :: p.around }

namespace Css

mutual

/-- The declarations in a node. -/
def placed : Css → List Placed
  | .rule selectors body => (allPlaced body).map (.within (.rule selectors))
  | .directive text body => (allPlaced body).map (.within (.directive text))
  | .property name value => [⟨[], name, value⟩]
  | .comment _ => []

/-- The declarations in some nodes. -/
def allPlaced : List Css → List Placed
  | [] => []
  | c :: rest => c.placed ++ allPlaced rest

end

end Css

/-! ## Pieces of text -/

/-- White space and semicolons. -/
def IsFiller (g : Text) : Prop := ∀ c ∈ g, Text.isSpaceByte c = true ∨ c = semicolon

instance (g : Text) : Decidable (IsFiller g) :=
  List.decidableBAll (fun c => Text.isSpaceByte c = true ∨ c = semicolon) g

theorem IsGap.isFiller {g : Text} (h : IsGap g) : IsFiller g := fun c hc => .inl (h c hc)

/-- A piece of the text of a sheet. -/
inductive Piece where
  | filler (g : Text) (h : IsFiller g)
  | comment (indent : Text) (lines : List Text)
  /-- A directive without a block. -/
  | statement (text : Text)
  | declaration (name value : Text)
  | block (header : Text) (inner : List Piece)

/-- A declaration and the headers of the blocks around it, the outermost first. -/
structure Framed where
  headers : List Text
  name : Text
  value : Text
  deriving DecidableEq

def Framed.within (header : Text) (f : Framed) : Framed :=
  { f with headers := header :: f.headers }

/-- The declaration in one more block, if there is one. -/
def Framed.under (header? : Option Text) (f : Framed) : Framed :=
  { f with headers := header?.toList ++ f.headers }

namespace Style

/-- How a block is opened after its header. -/
def opening : Style → Text
  | nested | expanded => " \x7b\n"
  | compact => " \x7b "
  | compressed => [lbrace]

/-- How a declaration is written. -/
def declared (style : Style) (name value : Text) : Text :=
  match style with
  | compressed => name ++ ":" ++ value
  | nested | expanded | compact => declaration name value

/-- The selectors of a rule, in one text. Where each source line of selectors has a line of its own,
that is indented: by everything around the rule, or by the directives around it. -/
def joined (style : Style) (above : List Around) (selectors : List (List Text)) : Text :=
  match style with
  | nested => Css.joinSelectors ", " (",\n" ++ Text.times above.length indentUnit) selectors
  | expanded => Css.joinSelectors ", "
      (",\n" ++ Text.times (above.filterMap Around.directive?).length indentUnit) selectors
  | compact => Css.joinSelectors ", " ", " selectors
  | compressed => Css.joinSelectors "," "," selectors

end Style

namespace Piece

mutual

/-- The text of a piece. -/
def text (style : Style) : Piece → Text
  | filler g _ => g
  | comment indent lines => Style.comment indent lines
  | statement text => text ++ [semicolon]
  | declaration name value => style.declared name value
  | block header inner => header ++ style.opening ++ texts style inner ++ [rbrace]

/-- The text of some pieces. -/
def texts (style : Style) : List Piece → Text
  | [] => []
  | p :: rest => p.text style ++ texts style rest

end

mutual

/-- The declarations in a piece. -/
def framed : Piece → List Framed
  | declaration name value => [⟨[], name, value⟩]
  | block header inner => (allFramed inner).map (.within header)
  | filler .. | comment .. | statement _ => []

/-- The declarations in some pieces. -/
def allFramed : List Piece → List Framed
  | [] => []
  | p :: rest => p.framed ++ allFramed rest

end

variable {style : Style}

theorem texts_append (ps qs : List Piece) :
    texts style (ps ++ qs) = texts style ps ++ texts style qs := by
  induction ps with
  | nil => rw [texts]; rfl
  | cons p ps ih => rw [List.cons_append, texts, texts, ih, List.append_assoc]

theorem allFramed_append (ps qs : List Piece) :
    allFramed (ps ++ qs) = allFramed ps ++ allFramed qs := by
  induction ps with
  | nil => rw [allFramed]; rfl
  | cons p ps ih => rw [List.cons_append, allFramed, allFramed, ih, List.append_assoc]

end Piece

/-! ### Texts with known declarations -/

/-- The text can be cut into pieces that hold the given declarations, each once. -/
def Shows (style : Style) (t : Text) (fs : List Framed) : Prop :=
  ∃ ps, Piece.texts style ps = t ∧ (Piece.allFramed ps).Perm fs

/-- The texts can be cut into pieces that together hold the given declarations, each once. -/
def ShowsAll (style : Style) (ts : List Text) (fs : List Framed) : Prop :=
  ∃ pss : List (List Piece), pss.map (Piece.texts style) = ts ∧
    (pss.flatMap Piece.allFramed).Perm fs

section Shows
variable {style : Style} {t t' : Text} {fs fs' : List Framed}

theorem Shows.perm (h : Shows style t fs) (hp : fs.Perm fs') : Shows style t fs' := by
  obtain ⟨ps, htext, hfs⟩ := h
  exact ⟨ps, htext, hfs.trans hp⟩

theorem Shows.single (p : Piece) : Shows style (p.text style) p.framed := by
  refine ⟨[p], ?_, ?_⟩
  · rw [Piece.texts, Piece.texts, List.append_nil]
  · rw [Piece.allFramed, Piece.allFramed, List.append_nil]

theorem Shows.filler {g : Text} (hg : IsFiller g) : Shows style g [] := by
  have h : Shows style ((Piece.filler g hg).text style) (Piece.filler g hg).framed := .single _
  rwa [Piece.text, Piece.framed] at h

theorem Shows.comment (indent : Text) (lines : List Text) :
    Shows style (Style.comment indent lines) [] := by
  have h : Shows style ((Piece.comment indent lines).text style)
    (Piece.comment indent lines).framed := .single _
  rwa [Piece.text, Piece.framed] at h

theorem Shows.statement (text : Text) : Shows style (text ++ [semicolon]) [] := by
  have h : Shows style ((Piece.statement text).text style) (Piece.statement text).framed :=
    .single _
  rwa [Piece.text, Piece.framed] at h

theorem Shows.declaration (name value : Text) :
    Shows style (style.declared name value) [⟨[], name, value⟩] := by
  have h : Shows style ((Piece.declaration name value).text style)
    (Piece.declaration name value).framed := .single _
  rwa [Piece.text, Piece.framed] at h

theorem Shows.nil : Shows style [] [] := .filler (List.forall_mem_nil _)

theorem Shows.append (h : Shows style t fs) (h' : Shows style t' fs') :
    Shows style (t ++ t') (fs ++ fs') := by
  obtain ⟨ps, rfl, hfs⟩ := h
  obtain ⟨qs, rfl, hfs'⟩ := h'
  refine ⟨ps ++ qs, Piece.texts_append ps qs, ?_⟩
  rw [Piece.allFramed_append]
  exact hfs.append hfs'

theorem Shows.after_filler (h : Shows style t fs) {g : Text} (hg : IsFiller g) :
    Shows style (g ++ t) fs := (Shows.filler hg).append h

/-- A block adds its header to what is in it. -/
theorem Shows.block (h : Shows style t fs) (header : Text) :
    Shows style (header ++ style.opening ++ t ++ [rbrace]) (fs.map (.within header)) := by
  obtain ⟨ps, rfl, hfs⟩ := h
  have hblock : Shows style ((Piece.block header ps).text style) (Piece.block header ps).framed :=
    .single _
  rw [Piece.text, Piece.framed] at hblock
  exact hblock.perm (hfs.map _)

variable {ts ts' : List Text}

theorem ShowsAll.perm (h : ShowsAll style ts fs) (hp : fs.Perm fs') : ShowsAll style ts fs' := by
  obtain ⟨pss, htexts, hfs⟩ := h
  exact ⟨pss, htexts, hfs.trans hp⟩

theorem ShowsAll.nil : ShowsAll style [] [] := ⟨[], rfl, .nil⟩

theorem ShowsAll.cons (h : Shows style t fs) (h' : ShowsAll style ts fs') :
    ShowsAll style (t :: ts) (fs ++ fs') := by
  obtain ⟨ps, rfl, hfs⟩ := h
  obtain ⟨pss, rfl, hfs'⟩ := h'
  refine ⟨ps :: pss, rfl, ?_⟩
  rw [List.flatMap_cons]
  exact hfs.append hfs'

theorem ShowsAll.single (h : Shows style t fs) : ShowsAll style [t] fs :=
  List.append_nil fs ▸ .cons h .nil

theorem ShowsAll.append (h : ShowsAll style ts fs) (h' : ShowsAll style ts' fs') :
    ShowsAll style (ts ++ ts') (fs ++ fs') := by
  obtain ⟨pss, rfl, hfs⟩ := h
  obtain ⟨qss, rfl, hfs'⟩ := h'
  refine ⟨pss ++ qss, List.map_append, ?_⟩
  rw [List.flatMap_append]
  exact hfs.append hfs'

end Shows

/-! ### Texts in a row -/

/-- The texts one after the other, with white space and semicolons before, between and after
them. -/
inductive Strung : List Text → Text → Prop
  | nil {g : Text} (hg : IsFiller g) : Strung [] g
  | cons {g t : Text} {ts : List Text} {out : Text} (hg : IsFiller g) (h : Strung ts out) :
    Strung (t :: ts) (g ++ t ++ out)

namespace Strung
variable {ts ts' : List Text} {out out' : Text}

theorem single (t : Text) : Strung [t] t := by
  have h : Strung [t] ([] ++ t ++ []) :=
    .cons (List.forall_mem_nil _) (.nil (List.forall_mem_nil _))
  simpa using h

theorem after_filler {g : Text} (hg : IsFiller g) (h : Strung ts out) : Strung ts (g ++ out) := by
  have happend {g' : Text} (hg' : IsFiller g') : IsFiller (g ++ g') := fun c hc =>
    (List.mem_append.1 hc).elim (hg c) (hg' c)
  cases h with
  | nil hg' => exact .nil (happend hg')
  | cons hg' h =>
    rw [← List.append_assoc, ← List.append_assoc]
    exact .cons (happend hg') h

theorem append (h : Strung ts out) (h' : Strung ts' out') : Strung (ts ++ ts') (out ++ out') := by
  induction h with
  | nil hg => exact h'.after_filler hg
  | cons hg _ ih =>
    rw [List.append_assoc]
    exact .cons hg ih

theorem before_filler {g : Text} (h : Strung ts out) (hg : IsFiller g) : Strung ts (out ++ g) :=
  List.append_nil ts ▸ h.append (.nil hg)

theorem join {sep : Text} (hsep : IsFiller sep) (ts : List Text) :
    Strung ts (Text.join sep ts) := by
  fun_induction Text.join sep ts with
  | case1 => exact .nil (List.forall_mem_nil _)
  | case2 t => exact single t
  | case3 t next rest ih =>
    rw [List.append_assoc]
    exact (single t).append (ih.after_filler hsep)

theorem endLines (ts : List Text) : Strung ts (ts.flatMap Style.Expanded.endLine) := by
  induction ts with
  | nil => exact .nil (List.forall_mem_nil _)
  | cons t ts ih =>
    have hline : Strung [t] (Style.Expanded.endLine t) :=
      (single t).before_filler isGap_newline.isFiller
    exact hline.append ih

theorem joinBlocks (ts : List Text) : Strung ts (Style.joinBlocks ts) := by
  cases ts with
  | nil => exact .nil (List.forall_mem_nil _)
  | cons t ts => exact (join (by decide) _).before_filler isGap_newline.isFiller

/-- Lines may be joined to blocks first. -/
theorem flatten {tss : List (List Text)} {sep : Text} (hsep : IsFiller sep)
    (h : Strung (tss.map (Text.join sep)) out) : Strung tss.flatten out := by
  induction tss generalizing out with
  | nil => exact h
  | cons ts tss ih =>
    cases h with
    | cons hg h =>
      rw [List.append_assoc]
      exact ((join hsep ts).append (ih h)).after_filler hg

theorem linesToBlocks (tss : List (List Text)) :
    Strung tss.flatten (Style.joinBlocks (Style.linesToBlocks tss)) := by
  rw [← List.flatten_filter_not_isEmpty]
  exact flatten isGap_newline.isFiller (joinBlocks _)

/-- A row of texts shows what the texts show. -/
theorem shows {style : Style} {fs : List Framed} (h : Strung ts out)
    (hts : ShowsAll style ts fs) : Shows style out fs := by
  obtain ⟨pss, rfl, hfs⟩ := hts
  refine Shows.perm ?_ hfs
  generalize hts : pss.map (Piece.texts style) = ts at h
  clear hfs
  induction h generalizing pss with
  | nil hg =>
    obtain rfl := List.map_eq_nil_iff.1 hts
    exact .filler hg
  | cons hg _ ih =>
    obtain ⟨ps, pss, rfl, rfl, hrest⟩ := List.map_eq_cons_iff.1 hts
    rw [List.append_assoc, List.flatMap_cons]
    have hps : Shows style (Piece.texts style ps) (Piece.allFramed ps) := ⟨ps, rfl, .refl _⟩
    exact (hps.append (ih pss hrest)).after_filler hg

end Strung

/-! ## Which headers to expect -/

namespace Style

/-- The header of a rule's own block, for what is right beneath the rule. -/
def ownHeader? (style : Style) (around : List Around) : Option Text :=
  match around.getLast? with
  | some (.rule selectors) => some (style.joined around.dropLast selectors)
  | _ => none

/-- The headers of the blocks around a declaration: those of all directives, and the selectors of a
rule that it is right beneath. -/
def headers (style : Style) (around : List Around) : List Text :=
  around.filterMap Around.directive? ++ (style.ownHeader? around).toList

/-- The blocks around a declaration from a place on with `above` around it. -/
def frame (style : Style) (above : List Around) (p : Placed) : Framed :=
  ⟨p.around.filterMap Around.directive? ++ (style.ownHeader? (above ++ p.around)).toList, p.name,
    p.value⟩

variable {style : Style} {above : List Around}

theorem ownHeader?_rule (selectors : List (List Text)) :
    style.ownHeader? (above ++ [.rule selectors]) = some (style.joined above selectors) := by
  simp [ownHeader?]

theorem ownHeader?_directive (text : Text) :
    style.ownHeader? (above ++ [.directive text]) = none := by
  simp [ownHeader?]

/-- A rule is no block around what is nested in it. -/
theorem frame_within_rule (selectors : List (List Text)) (p : Placed) :
    style.frame above (p.within (.rule selectors)) =
      style.frame (above ++ [.rule selectors]) p := by
  simp [frame, Placed.within, List.filterMap_cons, Around.directive?]

/-- A directive is. -/
theorem frame_within_directive (text : Text) (p : Placed) :
    style.frame above (p.within (.directive text)) =
      (style.frame (above ++ [.directive text]) p).within text := by
  simp [frame, Placed.within, Framed.within, Around.directive?]

end Style

namespace Css

/-- A node that is a declaration. -/
def own? : Css → Option Framed
  | .property name value => some ⟨[], name, value⟩
  | .rule .. | .directive .. | .comment _ => none

/-- The declarations right among some nodes. -/
def ownDeclared (body : List Css) : List Framed := body.filterMap own?

/-- The declarations deeper in a node. -/
def nested : Css → List Placed
  | .rule selectors body => (allPlaced body).map (.within (.rule selectors))
  | .directive text body => (allPlaced body).map (.within (.directive text))
  | .property .. | .comment _ => []

theorem map_frame_placed (style : Style) (above : List Around) (c : Css) :
    c.placed.map (style.frame above) =
      c.own?.toList.map (.under (style.ownHeader? above)) ++ c.nested.map (style.frame above) := by
  cases c with
  | rule | directive | comment =>
    rw [placed, nested]
    rfl
  | property name value =>
    rw [placed]
    simp [Style.frame, own?, nested, Framed.under]

/-- What some nodes hold is right among them or deeper in them. -/
theorem map_frame_perm (style : Style) (above : List Around) (body : List Css) :
    ((allPlaced body).map (style.frame above)).Perm
      ((ownDeclared body).map (.under (style.ownHeader? above)) ++
        (body.flatMap nested).map (style.frame above)) := by
  induction body with
  | nil => exact .nil
  | cons c body ih =>
    have hown : ownDeclared (c :: body) = c.own?.toList ++ ownDeclared body := by
      rw [ownDeclared, ownDeclared, List.filterMap_eq_flatMap_toList,
        List.filterMap_eq_flatMap_toList, List.flatMap_cons]
    rw [allPlaced, List.map_append, map_frame_placed, hown, List.flatMap_cons, List.map_append,
      List.map_append, List.append_assoc, List.append_assoc]
    -- what is nested in the first node goes behind the own declarations of the others
    exact (((List.Perm.refl _).append ih).trans (List.perm_append_comm_assoc _ _ _)).append_left _

theorem ownDeclared_eq_nil {body : List Css} (h : hasProperties body = false) :
    ownDeclared body = [] := by
  refine List.filterMap_eq_nil_iff.2 fun c hc => ?_
  have hproperty := List.any_eq_false.1 h c hc
  cases c with
  | property name value => exact absurd rfl hproperty
  | rule | directive | comment => rfl

end Css

section Bodies
variable {style : Style}

/-- A style may write every declaration of a body on its own. -/
theorem showsAll_filterMap {write : Css → Option Text}
    (hwrite : ∀ c, ShowsAll style (write c).toList c.own?.toList) (body : List Css) :
    ShowsAll style (body.filterMap write) (Css.ownDeclared body) := by
  rw [Css.ownDeclared, List.filterMap_eq_flatMap_toList, List.filterMap_eq_flatMap_toList]
  induction body with
  | nil => exact .nil
  | cons c body ih => exact (hwrite c).append ih

theorem showsAll_inline?
    (hstyle : ∀ name value, style.declared name value = Style.declaration name value)
    {indent : Text} (hindent : IsFiller indent) (c : Css) :
    ShowsAll style (Style.inline? indent c).toList c.own?.toList := by
  cases c with
  | rule | directive => exact .nil
  | comment lines => exact .single (.comment indent lines)
  | property name value =>
    have hpiece : Shows style (style.declared name value) [⟨[], name, value⟩] :=
      .declaration name value
    rw [hstyle] at hpiece
    exact .single (hpiece.after_filler hindent)

/-- What is right beneath a rule gets the header of the rule's own block. -/
theorem under_rule (above : List Around) (selectors : List (List Text)) :
    Framed.under (style.ownHeader? (above ++ [.rule selectors])) =
      Framed.within (style.joined above selectors) := by
  rw [Style.ownHeader?_rule]
  rfl

theorem under_directive (above : List Around) (text : Text) :
    Framed.under (style.ownHeader? (above ++ [.directive text])) = id := by
  rw [Style.ownHeader?_directive]
  rfl

/-- What is in a rule is right beneath it or deeper. -/
theorem nested_rule_perm (above : List Around) (selectors : List (List Text)) (body : List Css) :
    ((Css.rule selectors body).nested.map (style.frame above)).Perm
      ((Css.ownDeclared body).map (.within (style.joined above selectors)) ++
        (body.flatMap Css.nested).map (style.frame (above ++ [.rule selectors]))) := by
  have hframe : style.frame above ∘ Placed.within (.rule selectors) =
      style.frame (above ++ [.rule selectors]) := funext (Style.frame_within_rule selectors)
  rw [Css.nested, List.map_map, hframe, ← under_rule]
  exact Css.map_frame_perm style _ body

/-- The block of a directive holds all that is in the directive. -/
theorem shows_directive (above : List Around) (text : Text) {body : List Css} {inner : Text}
    (hinner : Shows style inner (Css.ownDeclared body ++
      (body.flatMap Css.nested).map (style.frame (above ++ [.directive text])))) :
    Shows style (text ++ style.opening ++ inner ++ [rbrace])
      ((Css.directive text body).nested.map (style.frame above)) := by
  have hframe : style.frame above ∘ Placed.within (.directive text) =
      Framed.within text ∘ style.frame (above ++ [.directive text]) :=
    funext (Style.frame_within_directive text)
  have hperm := Css.map_frame_perm style (above ++ [.directive text]) body
  rw [under_directive, List.map_id] at hperm
  rw [Css.nested, List.map_map, hframe, ← List.map_map]
  exact (hinner.block text).perm (hperm.symm.map _)

end Bodies

/-! ## The styles with line ends -/

/-- How the three styles with line ends write a node from its parts. The index `ι` is what a style
hands down to nested nodes, and `Fits` says which index goes with what stands around a node. -/
structure Stacks (style : Style) {ι : Type} (Fits : ι → List Around → Prop)
    (node : ι → Css → List Text) (nodes : ι → List Css → List Text) : Prop where
  declared : ∀ name value, style.declared name value = Style.declaration name value
  nil : ∀ i, nodes i [] = []
  cons : ∀ i c rest, nodes i (c :: rest) = node i c ++ nodes i rest
  property : ∀ i name value, node i (.property name value) = []
  comment : ∀ i lines, node i (.comment lines) = []
  rule : ∀ i above selectors body, Fits i above → ∃ lead indent inner j,
    node i (.rule selectors body) = (if Css.hasProperties body then
      [lead ++ (style.joined above selectors ++ style.opening ++ inner ++ [rbrace])] else []) ++
        nodes j body ∧
    IsFiller lead ∧ IsFiller indent ∧ Strung (Style.inlines indent body) inner ∧
    Fits j (above ++ [.rule selectors])
  statement : ∀ i above text, Fits i above → ∃ lead,
    node i (.directive text []) = [lead ++ (text ++ [semicolon])] ∧ IsFiller lead
  block : ∀ i above text first rest, Fits i above → ∃ lead indent inner j,
    node i (.directive text (first :: rest)) =
      [lead ++ (text ++ style.opening ++ inner ++ [rbrace])] ∧
    IsFiller lead ∧ IsFiller indent ∧
    Strung (Style.inlines indent (first :: rest) ++ nodes j (first :: rest)) inner ∧
    Fits j (above ++ [.directive text])

namespace Stacks
variable {style : Style} {ι : Type} {Fits : ι → List Around → Prop} {node : ι → Css → List Text}
  {nodes : ι → List Css → List Text}

mutual

/-- **A node shows the declarations deeper in it** within the blocks to expect. -/
theorem shows_node (h : Stacks style Fits node nodes) {i : ι} {above : List Around}
    (hi : Fits i above) :
    ∀ c : Css, ShowsAll style (node i c) (c.nested.map (style.frame above))
  | .rule selectors body => by
    obtain ⟨lead, indent, inner, j, hnode, hlead, hindent, hinner, hj⟩ :=
      h.rule i above selectors body hi
    have hdeeper := shows_nodes h hj body
    rw [hnode]
    refine ShowsAll.perm ?_ (nested_rule_perm above selectors body).symm
    split
    · have hown := hinner.shows (showsAll_filterMap (showsAll_inline? h.declared hindent) body)
      exact (ShowsAll.single ((hown.block _).after_filler hlead)).append hdeeper
    · rename_i hnone
      rw [Css.ownDeclared_eq_nil (Bool.eq_false_iff.2 hnone)]
      exact hdeeper
  | .directive text [] => by
    obtain ⟨lead, hnode, hlead⟩ := h.statement i above text hi
    rw [hnode, Css.nested, Css.allPlaced]
    exact .single ((Shows.statement text).after_filler hlead)
  | .directive text (first :: rest) => by
    obtain ⟨lead, indent, inner, j, hnode, hlead, hindent, hinner, hj⟩ :=
      h.block i above text first rest hi
    have hall := (showsAll_filterMap (showsAll_inline? h.declared hindent) (first :: rest)).append
      (shows_nodes h hj (first :: rest))
    rw [hnode]
    exact .single ((shows_directive above text (hinner.shows hall)).after_filler hlead)
  | .property name value => by
    rw [h.property]
    exact .nil
  | .comment lines => by
    rw [h.comment]
    exact .nil

theorem shows_nodes (h : Stacks style Fits node nodes) {i : ι} {above : List Around}
    (hi : Fits i above) :
    ∀ body : List Css,
      ShowsAll style (nodes i body) ((body.flatMap Css.nested).map (style.frame above))
  | [] => by
    rw [h.nil]
    exact .nil
  | c :: rest => by
    rw [h.cons, List.flatMap_cons, List.map_append]
    exact (shows_node h hi c).append (shows_nodes h hi rest)

end

/-- At the outermost level a style also writes the declarations that stand there. -/
theorem shows_sheet (h : Stacks style Fits node nodes) {i : ι} (hi : Fits i []) (sheet : List Css) :
    ShowsAll style (sheet.flatMap fun c => (Style.inline? [] c).toList ++ node i c)
      ((Css.allPlaced sheet).map (style.frame [])) := by
  induction sheet with
  | nil => exact .nil
  | cons c sheet ih =>
    have hinline := showsAll_inline? h.declared isGap_nil.isFiller c
    have htop : Framed.under (style.ownHeader? []) = id := rfl
    rw [List.flatMap_cons, Css.allPlaced, List.map_append, Css.map_frame_placed, htop, List.map_id]
    exact (hinline.append (h.shows_node hi c)).append ih

end Stacks

theorem close_inline : (" \x7d" : Text) = " " ++ [rbrace] := rfl

/-- The nested style hands down how much stands around a node. -/
theorem stacks_nested :
    Stacks .nested (fun depth above => depth = above.length) Style.Nested.node
      Style.Nested.nodes where
  declared _ _ := rfl
  nil _ := by rw [Style.Nested.nodes]
  cons _ _ _ := by rw [Style.Nested.nodes]
  property _ _ _ := by rw [Style.Nested.node]
  comment _ _ := by rw [Style.Nested.node]
  rule depth above selectors body hdepth := by
    subst hdepth
    have hindent := isGap_times above.length
    refine ⟨_, _, _, above.length + 1, ?_, hindent.isFiller,
      (hindent.append isGap_indentUnit).isFiller,
      (Strung.join isGap_newline.isFiller _).before_filler isGap_space.isFiller, ?_⟩
    · simp only [Style.Nested.node, Style.Nested.ownBlock, Style.joined, Style.opening,
        close_inline, List.append_assoc]
    · rw [List.length_append]
      rfl
  statement depth _ text _ :=
    ⟨_, by rw [Style.Nested.node, List.append_assoc]; rfl, (isGap_times depth).isFiller⟩
  block depth above text first rest hdepth := by
    subst hdepth
    have hindent := isGap_times above.length
    refine ⟨_, _, _, above.length + 1, ?_, hindent.isFiller,
      (hindent.append isGap_indentUnit).isFiller,
      (Strung.join isGap_newline.isFiller _).before_filler isGap_space.isFiller, ?_⟩
    · simp only [Style.Nested.node, Style.opening, close_inline, List.append_assoc]
    · rw [List.length_append]
      rfl

/-- One level more is one unit more at the end. -/
theorem Text.times_succ (n : Nat) (s : Text) : Text.times (n + 1) s = Text.times n s ++ s := by
  rw [Text.times, List.replicate_succ', List.flatten_append]
  simp [Text.times]

/-- The expanded style hands down an indentation, one unit for each directive around a node. -/
theorem stacks_expanded :
    Stacks .expanded (fun indent above => indent =
        Text.times (above.filterMap Around.directive?).length Style.indentUnit)
      Style.Expanded.node Style.Expanded.nodes where
  declared _ _ := rfl
  nil _ := by rw [Style.Expanded.nodes]
  cons _ _ _ := by rw [Style.Expanded.nodes]
  property _ _ _ := by rw [Style.Expanded.node]
  comment _ _ := by rw [Style.Expanded.node]
  rule indent above selectors body hindent := by
    have hgap : IsGap indent := hindent ▸ isGap_times _
    refine ⟨indent, indent ++ Style.indentUnit, _, indent, ?_, hgap.isFiller,
      (hgap.append isGap_indentUnit).isFiller,
      (Strung.endLines _).before_filler hgap.isFiller, ?_⟩
    · simp only [Style.Expanded.node, Style.Expanded.ownBlock, Style.joined, Style.opening,
        ← hindent, List.append_assoc]
      rfl
    · rw [hindent, List.filterMap_append, List.length_append]
      rfl
  statement indent _ text hindent :=
    ⟨indent, by rw [Style.Expanded.node, List.append_assoc]; rfl,
      IsGap.isFiller (hindent ▸ isGap_times _)⟩
  block indent above text first rest hindent := by
    have hgap : IsGap indent := hindent ▸ isGap_times _
    refine ⟨indent, indent ++ Style.indentUnit, _, indent ++ Style.indentUnit, ?_, hgap.isFiller,
      (hgap.append isGap_indentUnit).isFiller,
      (Strung.join isGap_newline.isFiller _).before_filler (isGap_newline.append hgap).isFiller, ?_⟩
    · simp only [Style.Expanded.node, Style.opening, List.append_assoc]
      rfl
    · rw [hindent, List.filterMap_append, List.length_append]
      exact (Text.times_succ _ _).symm

/-- The compact style hands down nothing. -/
theorem stacks_compact :
    Stacks .compact (fun (_ : Unit) _ => True) (fun _ => Style.Compact.node)
      (fun _ => Style.Compact.nodes) where
  declared _ _ := rfl
  nil _ := by rw [Style.Compact.nodes]
  cons _ _ _ := by rw [Style.Compact.nodes]
  property _ _ _ := by rw [Style.Compact.node]
  comment _ _ := by rw [Style.Compact.node]
  rule _ above selectors body _ := by
    refine ⟨[], [], _, (), ?_, isGap_nil.isFiller, isGap_nil.isFiller,
      (Strung.join isGap_space.isFiller _).before_filler isGap_space.isFiller, trivial⟩
    simp only [Style.Compact.node, Style.Compact.ownBlock, Style.joined, Style.opening,
      close_inline, List.append_assoc, List.nil_append]
  statement _ _ text _ := ⟨[], by rw [Style.Compact.node]; rfl, isGap_nil.isFiller⟩
  block _ above text first rest _ := by
    refine ⟨[], [], _, (), ?_, isGap_nil.isFiller, isGap_nil.isFiller,
      (Strung.join isGap_space.isFiller _).before_filler isGap_space.isFiller, trivial⟩
    simp only [Style.Compact.node, Style.opening, close_inline, List.append_assoc,
      List.nil_append]

/-! ## The compressed style -/

namespace Style.Compressed

theorem shows_declarations (body : List Css) :
    Shows .compressed (declarations body) (Css.ownDeclared body) := by
  have hwrite (c : Css) : ShowsAll .compressed (declaration? c).toList c.own?.toList := by
    cases c with
    | rule | directive | comment => exact .nil
    | property name value => exact .single (.declaration name value)
  have hsemicolon : IsFiller ";" := by decide
  exact (Strung.join hsemicolon _).shows (showsAll_filterMap hwrite body)

theorem isFiller_separator (body : List Css) : IsFiller (separator body) := by
  rw [separator]
  split
  · decide
  · exact isGap_nil.isFiller

/-- Declarations, and what is nested after them. -/
theorem shows_inner {body : List Css} {fs : List Framed}
    (hnodes : Shows .compressed (nodes body) fs) :
    Shows .compressed (declarations body ++ separator body ++ nodes body)
      (Css.ownDeclared body ++ fs) := by
  rw [List.append_assoc]
  exact (shows_declarations body).append (hnodes.after_filler (isFiller_separator body))

mutual

/-- A node shows the declarations deeper in it, here in one text. -/
theorem shows_node (above : List Around) :
    ∀ c : Css, Shows .compressed (node c) (c.nested.map (frame .compressed above))
  | .rule selectors body => by
    have hdeeper := shows_nodes (above ++ [.rule selectors]) body
    refine Shows.perm ?_ (nested_rule_perm above selectors body).symm
    rw [node]
    split
    · have hown := ((shows_declarations body).block (joined .compressed above selectors)).append
        hdeeper
      simpa [joined, opening] using hown
    · rename_i hnone
      rw [Css.ownDeclared_eq_nil (Bool.eq_false_iff.2 hnone)]
      exact hdeeper
  | .directive text [] => by
    rw [node, Css.nested, Css.allPlaced]
    exact .statement text
  | .directive text (first :: rest) => by
    have hdeeper := shows_nodes (above ++ [.directive text]) (first :: rest)
    have hall := shows_directive above text (shows_inner hdeeper)
    rw [node]
    simpa [opening] using hall
  | .property name value => by
    rw [node]
    exact .nil
  | .comment lines => by
    rw [node]
    exact .nil

theorem shows_nodes (above : List Around) :
    ∀ body : List Css,
      Shows .compressed (nodes body) ((body.flatMap Css.nested).map (frame .compressed above))
  | [] => by
    rw [nodes]
    exact .nil
  | c :: rest => by
    rw [nodes, List.flatMap_cons, List.map_append]
    exact (shows_node above c).append (shows_nodes above rest)

end

end Style.Compressed

/-! ## All styles -/

namespace Style

/-- The text of a sheet shows every declaration within the blocks to expect. -/
theorem shows_render (style : Style) (sheet : List Css) :
    Shows style (style.render sheet) ((Css.allPlaced sheet).map (style.frame [])) := by
  cases style with
  | nested =>
    have hall := stacks_nested.shows_sheet rfl sheet
    exact (Strung.linesToBlocks (sheet.map Nested.topNode)).shows hall
  | expanded =>
    have hall := stacks_expanded.shows_sheet rfl sheet
    exact (Strung.joinBlocks (sheet.flatMap Expanded.topNode)).shows hall
  | compact =>
    have hall := stacks_compact.shows_sheet (i := ()) trivial sheet
    exact (Strung.linesToBlocks (sheet.map Compact.topNode)).shows hall
  | compressed =>
    have htop : Framed.under (ownHeader? .compressed []) = id := rfl
    have hperm := Css.map_frame_perm .compressed [] sheet
    rw [htop, List.map_id] at hperm
    exact (Compressed.shows_inner (Compressed.shows_nodes [] sheet)).perm hperm.symm

/-- The nearest rule gives a header only if no directive stands between. -/
theorem headers_between (style : Style) (above : List Around) (selectors : List (List Text))
    (between : List Text) :
    style.headers (above ++ .rule selectors :: between.map .directive) =
      above.filterMap Around.directive? ++
        (if between = [] then [style.joined above selectors] else between) := by
  have hdirectives : (between.map Around.directive).filterMap Around.directive? = between := by
    rw [List.filterMap_map]
    exact List.filterMap_some
  rw [headers, List.filterMap_append, List.filterMap_cons_none rfl, hdirectives, List.append_assoc]
  congr 1
  -- the last of what stands around decides whether there is a block of selectors
  rcases List.eq_nil_or_concat' between with rfl | ⟨before, last, rfl⟩
  · rw [List.map_nil, ownHeader?_rule]
    rfl
  · have hlast : above ++ .rule selectors :: (before ++ [last]).map .directive =
        (above ++ .rule selectors :: before.map .directive) ++ [.directive last] := by simp
    rw [hlast, ownHeader?_directive, if_neg (List.concat_ne_nil last before)]
    exact List.append_nil _

/-- **Which blocks a declaration stands in.** In every style the text of a sheet can be cut so that
every declaration stands in the blocks of the directives around it and, right beneath a rule, in a
block of the joined selectors. When there are directives between the nearest rule and the
declaration, only their blocks are left. -/
theorem render_frames (style : Style) (sheet : List Css) :
    ∃ pieces, Piece.texts style pieces = style.render sheet ∧
      (Piece.allFramed pieces).Perm ((Css.allPlaced sheet).map fun p =>
        ⟨style.headers p.around, p.name, p.value⟩) ∧
      ∀ p ∈ Css.allPlaced sheet, ∀ above selectors between,
        p.around = above ++ .rule selectors :: between.map .directive →
        ⟨above.filterMap Around.directive? ++
          (if between = [] then [style.joined above selectors] else between), p.name, p.value⟩ ∈
            Piece.allFramed pieces := by
  obtain ⟨pieces, htext, hframed⟩ := style.shows_render sheet
  refine ⟨pieces, htext, hframed, ?_⟩
  intro p hp above selectors between haround
  rw [← headers_between, ← haround]
  exact hframed.mem_iff.2 (List.mem_map_of_mem hp)

theorem render_frames_media :
    let sheet : List Css := [.rule [["a"]]
      [.property "x" "y", .directive "@media print" [.property "b" "c"]]]
    Css.allPlaced sheet = [⟨[.rule [["a"]]], "x", "y"⟩,
      ⟨[.rule [["a"]], .directive "@media print"], "b", "c"⟩] ∧
    ∀ style : Style, ∃ pieces, Piece.texts style pieces = style.render sheet ∧
      ⟨[style.joined [] [["a"]]], "x", "y"⟩ ∈ Piece.allFramed pieces ∧
      ⟨["@media print"], "b", "c"⟩ ∈ Piece.allFramed pieces := by
  intro sheet
  have hplaced : Css.allPlaced sheet = [⟨[.rule [["a"]]], "x", "y"⟩,
      ⟨[.rule [["a"]], .directive "@media print"], "b", "c"⟩] := by decide
  refine ⟨hplaced, fun style => ?_⟩
  obtain ⟨pieces, htext, -, hframed⟩ := render_frames style sheet
  rw [hplaced] at hframed
  exact ⟨pieces, htext, hframed _ (List.mem_cons_self ..) [] [["a"]] [] rfl,
    hframed _ (.tail _ (List.mem_cons_self ..)) [] [["a"]] ["@media print"] rfl⟩

end Style

/-! ### Headers that are not there -/

namespace Piece
variable {style : Style}

mutual

/-- The header of a block around a declaration is in the text, and the block is opened after it. -/
theorem infix_text : ∀ p : Piece, ∀ f ∈ p.framed, ∀ header ∈ f.headers,
    header ++ style.opening <:+: p.text style
  | .filler .., f, hf, _, _ | .comment .., f, hf, _, _ | .statement _, f, hf, _, _ => by
    rw [framed] at hf
    cases hf
  | .declaration name value, f, hf, header, hheader => by
    rw [framed] at hf
    cases List.mem_singleton.1 hf
    cases hheader
  | .block opener inner, f, hf, header, hheader => by
    rw [framed] at hf
    obtain ⟨g, hg, rfl⟩ := List.mem_map.1 hf
    rw [text]
    rcases List.mem_cons.1 hheader with rfl | hheader
    · rw [List.append_assoc]
      exact (List.prefix_append _ _).isInfix
    · exact (infix_texts inner g hg header hheader).trans (List.infix_append _ _ _)

theorem infix_texts : ∀ ps : List Piece, ∀ f ∈ allFramed ps, ∀ header ∈ f.headers,
    header ++ style.opening <:+: texts style ps
  | [], f, hf, _, _ => by
    rw [allFramed] at hf
    cases hf
  | p :: rest, f, hf, header, hheader => by
    rw [allFramed, List.mem_append] at hf
    rw [texts]
    rcases hf with hf | hf
    · exact (infix_text p f hf header hheader).trans (List.prefix_append _ _).isInfix
    · exact (infix_texts rest f hf header hheader).trans (List.suffix_append _ _).isInfix

end

end Piece

namespace Style

/-- The selectors do get lost: a directive beneath a rule is written without them, and no cut of the
text puts the declaration into a block of the selectors of its rule. -/
theorem selectors_lost :
    let w : World := ⟨⟨[], [], false⟩, .inMemory plainLibrary, []⟩
    ∃ sheet w', plainCompiler.evaluate "a\n  @media print\n    b: c\n" w = (.ok sheet, w') ∧
      Css.allPlaced sheet = [⟨[.rule [["a"]], .directive "@media print"], "b", "c"⟩] ∧
      ∀ style pieces, Piece.texts style pieces = style.render sheet →
        ∀ f ∈ Piece.allFramed pieces, style.joined [] [["a"]] ∉ f.headers := by
  intro w
  -- nodes have no decidable equality, so the sheet is known by what is in it and how it is written
  have hseen : (plainCompiler.evaluate "a\n  @media print\n    b: c\n" w).1.toOption.map
      (fun sheet => (Css.allPlaced sheet, decide (∀ style ∈ all,
        ¬ style.joined [] [["a"]] ++ style.opening <:+: style.render sheet))) =
      some ([⟨[.rule [["a"]], .directive "@media print"], "b", "c"⟩], true) := by
    decide +kernel
  rcases hresult : plainCompiler.evaluate "a\n  @media print\n    b: c\n" w with ⟨stop | sheet, w'⟩
  · rw [hresult] at hseen
    cases hseen
  · rw [hresult] at hseen
    obtain ⟨hplaced, habsent⟩ := Prod.mk.inj (Option.some.inj hseen)
    refine ⟨sheet, w', rfl, hplaced, ?_⟩
    intro style pieces htext f hf hheader
    have hstyle : style ∈ all := by cases style <;> decide
    exact of_decide_eq_true habsent style hstyle
      (htext ▸ Piece.infix_texts pieces f hf _ hheader)

end Style

end IndentedSass
