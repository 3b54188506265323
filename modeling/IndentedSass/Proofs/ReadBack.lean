import IndentedSass.Proofs.StyleAgreement

/-!
# Compressed sheets can be read back

The compressed style leaves out every separator that it can spare. Nothing is lost by that: a
reader of the block grammar, which has declarations `name:value`, statements `@text;` and blocks
`header{...}`, finds the whole sheet again, in order. What it finds is the sheet with its rules side
by side (`Css.flat`), since the style itself does not nest them.

`Blocks.Reader` goes over a text byte by byte. It keeps the piece that it is in and the blocks that
are open, and refuses what the grammar does not allow. `Reads r t r'` states that it gets over `t`
from one state to another; `reads_node` says so for every node, wherever it stands.
-/

namespace IndentedSass

namespace Blocks
open Ascii

/-! ## The grammar -/

/-- An item of a sheet in which rules do not nest. -/
inductive Item where
  | rule (selectors : Text) (declarations : List (Text × Text))
  | statement (text : Text)
  | block (text : Text) (declarations : List (Text × Text)) (items : List Item)

/-- A block that is open: its header, and what has been read of it. -/
structure Open where
  header : Text
  declarations : List (Text × Text)
  items : List Item

/-- The item of a block that is closed. The header tells directives from rules, and nothing can be
nested in a rule. -/
def Open.item? (b : Open) : Option Item :=
  if b.header.head? = some atSign then some (.block b.header b.declarations b.items)
  else if b.items.isEmpty then some (.rule b.header b.declarations)
  else none

/-- The name and the value of a declaration. -/
def pair? (piece : Text) : Option (Text × Text) :=
  (Text.cut? [colon] piece).filter fun d => !d.1.isEmpty && d.1.head? != some atSign

/-- How far a text has been read. -/
structure Reader where
  /-- What has been read since the last brace or semicolon. -/
  piece : Text
  /-- The open blocks, the innermost first. -/
  blocks : List Open
  /-- The items outside of all blocks. -/
  items : List Item

namespace Reader

def start : Reader := ⟨[], [], []⟩

/-- Adds items to the innermost block, or to the sheet. -/
def add (r : Reader) (items : List Item) : Reader :=
  match r.blocks with
  | [] => { r with items := r.items ++ items }
  | b :: rest => { r with blocks := { b with items := b.items ++ items } :: rest }

/-- Takes the piece for a declaration of the innermost block. Declarations come before all that is
nested. -/
def declare (r : Reader) : Option Reader :=
  match r.blocks, pair? r.piece with
  | b :: rest, some d =>
    if b.items.isEmpty then
      some { r with
        piece := []
        blocks := { b with declarations := b.declarations ++ [d] } :: rest }
    else none
  | _, _ => none

/-- Ends a statement or a declaration. -/
def endPiece (r : Reader) : Option Reader :=
  if r.piece.head? = some atSign then some ({ r with piece := [] }.add [.statement r.piece])
  else r.declare

/-- Leaves the innermost block. -/
def leave (r : Reader) : Option Reader :=
  match r.blocks with
  | [] => none
  | b :: rest => b.item?.map fun item => { r with blocks := rest }.add [item]

/-- Closes the innermost block, in which the last declaration may lack its semicolon. -/
def close (r : Reader) : Option Reader :=
  (if r.piece.isEmpty then some r else r.declare).bind leave

/-- Reads one byte. -/
def step (r : Reader) (c : UInt8) : Option Reader :=
  if c = lbrace then some { r with piece := [], blocks := ⟨r.piece, [], []⟩ :: r.blocks }
  else if c = rbrace then r.close
  else if c = semicolon then r.endPiece
  else some { r with piece := r.piece ++ [c] }

/-- The items of a text that has been read to its end. -/
def finish? (r : Reader) : Option (List Item) :=
  if r.piece.isEmpty && r.blocks.isEmpty then some r.items else none

end Reader

/-- The items of a text; none if the grammar does not allow it. -/
def read (t : Text) : Option (List Item) := (t.foldlM Reader.step .start).bind Reader.finish?

end Blocks

namespace Css
open Ascii Blocks

/-- The name and the value of a node that is a declaration. -/
def declared? : Css → Option (Text × Text)
  | .property name value => some (name, value)
  | .rule .. | .directive .. | .comment _ => none

/-- The declarations of a block, in order. -/
def declared (body : List Css) : List (Text × Text) := body.filterMap declared?

mutual

/-- A node with its rules side by side. -/
def flat : Css → List Item
  | .rule selectors body =>
    (match declared body with
      | [] => []
      | first :: rest => [.rule (joinSelectors "," "," selectors) (first :: rest)]) ++ allFlat body
  | .directive text [] => [.statement text]
  | .directive text (first :: rest) =>
    [.block text (declared (first :: rest)) (allFlat (first :: rest))]
  | .property .. | .comment _ => []

/-- Nodes with their rules side by side. -/
def allFlat : List Css → List Item
  | [] => []
  | c :: rest => c.flat ++ allFlat rest

end

/-- None of the marks of the grammar occurs in a text. -/
def Unmarked (t : Text) : Prop := lbrace ∉ t ∧ rbrace ∉ t ∧ semicolon ∉ t

instance (t : Text) : Decidable (Unmarked t) := inferInstanceAs (Decidable (_ ∧ _ ∧ _))

mutual

/-- The texts of a node have no marks, names can be told from values and from directives, and
directives from rules. -/
def Legible : Css → Prop
  | .rule selectors body => (∀ line ∈ selectors, ∀ s ∈ line, Unmarked s) ∧
    (joinSelectors "," "," selectors).head? ≠ some atSign ∧ AllLegible body
  | .property name value => Unmarked name ∧ Unmarked value ∧ name ≠ [] ∧ colon ∉ name ∧
    name.head? ≠ some atSign
  | .directive text body => Unmarked text ∧ text.head? = some atSign ∧ AllLegible body
  | .comment _ => True

/-- All nodes are legible. -/
def AllLegible : List Css → Prop
  | [] => True
  | c :: rest => c.Legible ∧ AllLegible rest

end

mutual

instance decidableLegible : ∀ c : Css, Decidable c.Legible
  | .rule _ body =>
    have := decidableAllLegible body
    inferInstanceAs (Decidable (_ ∧ _ ∧ _))
  | .property _ _ => inferInstanceAs (Decidable (_ ∧ _ ∧ _ ∧ _ ∧ _))
  | .directive _ body =>
    have := decidableAllLegible body
    inferInstanceAs (Decidable (_ ∧ _ ∧ _))
  | .comment _ => inferInstanceAs (Decidable True)

instance decidableAllLegible : ∀ body : List Css, Decidable (AllLegible body)
  | [] => inferInstanceAs (Decidable True)
  | c :: rest =>
    have := decidableLegible c
    have := decidableAllLegible rest
    inferInstanceAs (Decidable (_ ∧ _))

end

/-! ## Texts without marks -/

theorem unmarked_append {s t : Text} (hs : Unmarked s) (ht : Unmarked t) : Unmarked (s ++ t) := by
  simp only [Unmarked, List.mem_append, not_or] at hs ht ⊢
  exact ⟨⟨hs.1, ht.1⟩, ⟨hs.2.1, ht.2.1⟩, hs.2.2, ht.2.2⟩

theorem unmarked_join {sep : Text} {texts : List Text} (hsep : Unmarked sep)
    (h : ∀ t ∈ texts, Unmarked t) : Unmarked (Text.join sep texts) := by
  fun_induction Text.join sep texts with
  | case1 => simp [Unmarked]
  | case2 t => exact h t List.mem_cons_self
  | case3 t next rest ih =>
    obtain ⟨ht, hrest⟩ := List.forall_mem_cons.mp h
    exact unmarked_append (unmarked_append ht hsep) (ih hrest)

theorem unmarked_joinSelectors {selectors : List (List Text)}
    (h : ∀ line ∈ selectors, ∀ s ∈ line, Unmarked s) :
    Unmarked (joinSelectors "," "," selectors) := by
  have hcomma : Unmarked "," := by decide
  refine unmarked_join hcomma fun t ht => ?_
  obtain ⟨line, hline, rfl⟩ := List.mem_map.mp ht
  exact unmarked_join hcomma (h line hline)

/-! ## Declarations -/

/-- The text of a declaration. -/
def written (d : Text × Text) : Text := d.1 ++ colon :: d.2

/-- A declaration that can be told from other pieces. -/
structure LegiblePair (d : Text × Text) : Prop where
  name : Unmarked d.1
  value : Unmarked d.2
  name_ne : d.1 ≠ []
  colon_not_mem : colon ∉ d.1
  head_ne : d.1.head? ≠ some atSign

/-- Declarations are written with semicolons between them. -/
theorem declarations_eq (body : List Css) :
    Style.Compressed.declarations body = Text.join [semicolon] ((declared body).map written) := by
  have hwritten : body.filterMap Style.Compressed.declaration? = (declared body).map written := by
    rw [declared, List.map_filterMap]
    refine List.filterMap_congr fun c _ => ?_
    cases c with
    | property name value =>
      show some (name ++ [colon] ++ value) = _
      simp [declared?, written]
    | rule | directive | comment => rfl
  rw [Style.Compressed.declarations, hwritten]
  rfl

/-- A body without declarations has no pairs. -/
theorem declared_eq_nil {body : List Css} : declared body = [] ↔ hasProperties body = false := by
  rw [declared, List.filterMap_eq_nil_iff, hasProperties, List.any_eq_false]
  refine forall_congr' fun c => forall_congr' fun _ => ?_
  cases c <;> simp [declared?, isProperty]

theorem AllLegible.pairs {body : List Css} (h : AllLegible body) :
    ∀ d ∈ declared body, LegiblePair d := by
  induction body with
  | nil => exact List.forall_mem_nil _
  | cons c body ih =>
    obtain ⟨hc, hbody⟩ := h
    cases c with
    | property name value =>
      obtain ⟨hname, hvalue, hne, hcolon, hhead⟩ := hc
      exact List.forall_mem_cons.mpr ⟨⟨hname, hvalue, hne, hcolon, hhead⟩, ih hbody⟩
    | rule | directive | comment => exact ih hbody

theorem LegiblePair.unmarked {d : Text × Text} (h : LegiblePair d) : Unmarked (written d) := by
  have hcolon : Unmarked [colon] := by decide
  exact unmarked_append h.name (unmarked_append hcolon h.value)

/-- A declaration is neither a statement nor an empty piece. -/
theorem LegiblePair.head_written {d : Text × Text} (h : LegiblePair d) :
    (written d).head? ≠ some atSign ∧ written d ≠ [] := by
  obtain ⟨name, value⟩ := d
  cases name with
  | nil => exact absurd rfl h.name_ne
  | cons c name => exact ⟨h.head_ne, List.cons_ne_nil _ _⟩

theorem cut?_colon {name value : Text} (h : colon ∉ name) :
    Text.cut? [colon] (name ++ colon :: value) = some (name, value) := by
  induction name with
  | nil => simp [Text.cut?, Text.after?]
  | cons c name ih =>
    simp only [List.mem_cons, not_or] at h
    simp [Text.cut?, Text.after?, h.1, ih h.2]

/-- **A declaration that is written is read back.** Its name has no colon, so the first colon ends
it. -/
theorem LegiblePair.pair? {d : Text × Text} (h : LegiblePair d) : pair? (written d) = some d := by
  have hne : d.1.isEmpty = false := by simp [h.name_ne]
  rw [Blocks.pair?, written, cut?_colon h.colon_not_mem]
  simp [hne, h.head_ne]

/-- Declarations and comments leave nothing to put side by side. -/
theorem allFlat_of_inline {body : List Css} (h : body.any (fun c => !c.isInline) = false) :
    allFlat body = [] := by
  induction body with
  | nil => rw [allFlat]
  | cons c body ih =>
    rw [List.any_cons, Bool.or_eq_false_iff] at h
    rw [allFlat, ih h.2, List.append_nil]
    cases c with
    | rule | directive => cases h.1
    | property | comment => rw [flat]

end Css

/-! ## Reading -/

namespace Blocks
open Ascii Css

/-- A reader gets over a text. -/
def Reads (r : Reader) (t : Text) (r' : Reader) : Prop := t.foldlM Reader.step r = some r'

section Reads
variable {r r' r'' : Reader} {s t : Text}

theorem Reads.nil (r : Reader) : Reads r [] r := rfl

/-- Texts that are read one after the other are read as one. -/
theorem Reads.append (h : Reads r s r') (h' : Reads r' t r'') : Reads r (s ++ t) r'' := by
  rw [Reads, List.foldlM_append, h]
  exact h'

theorem reads_byte {c : UInt8} (h : r.step c = some r') : Reads r [c] r' := by
  simp [Reads, h]

/-- What has no marks becomes part of the piece. -/
theorem reads_unmarked (h : Unmarked t) (r : Reader) :
    Reads r t { r with piece := r.piece ++ t } := by
  induction t generalizing r with
  | nil => simp [Reads]
  | cons c t ih =>
    simp only [Unmarked, List.mem_cons, not_or] at h
    obtain ⟨⟨hl, hl'⟩, ⟨hr, hr'⟩, hs, hs'⟩ := h
    have hc : r.step c = some { r with piece := r.piece ++ [c] } := by
      simp [Reader.step, Ne.symm hl, Ne.symm hr, Ne.symm hs]
    have hrest := (reads_byte hc).append (ih ⟨hl', hr', hs'⟩ { r with piece := r.piece ++ [c] })
    simpa using hrest

theorem reads_semicolon (h : r.endPiece = some r') : Reads r [semicolon] r' :=
  reads_byte h

theorem reads_rbrace (h : r.close = some r') : Reads r [rbrace] r' :=
  reads_byte h

end Reads

namespace Reader
variable {r : Reader} {header : Text} {ds : List (Text × Text)} {items : List Item}

@[simp] theorem piece_add (r : Reader) (items : List Item) : (r.add items).piece = r.piece := by
  rw [add]
  split <;> rfl

@[simp] theorem add_nil (r : Reader) : r.add [] = r := by
  obtain ⟨piece, _ | ⟨b, rest⟩, top⟩ := r <;> simp [add]

/-- Items are added in order. -/
theorem add_append (r : Reader) (items more : List Item) :
    r.add (items ++ more) = (r.add items).add more := by
  obtain ⟨piece, _ | ⟨b, rest⟩, top⟩ := r <;> simp [add]

/-- A reader that has entered a block and got so far in it. -/
def within (r : Reader) (header : Text) (ds : List (Text × Text)) (items : List Item) : Reader :=
  { r with piece := [], blocks := ⟨header, ds, items⟩ :: r.blocks }

/-- Leaving a block adds it to what was read before. -/
theorem leave_within {item : Item} (hpiece : r.piece = [])
    (h : Open.item? ⟨header, ds, items⟩ = some item) :
    (r.within header ds items).leave = some (r.add [item]) := by
  obtain ⟨piece, blocks, top⟩ := r
  cases hpiece
  simp [within, leave, h]

/-- Where no declaration waits for its end, closing a block is leaving it. -/
theorem close_within {item : Item} (hpiece : r.piece = [])
    (h : Open.item? ⟨header, ds, items⟩ = some item) :
    (r.within header ds items).close = some (r.add [item]) :=
  leave_within hpiece h

/-- A declaration that waits for its end is ended by the block, too. -/
theorem close_of_declare {r' : Reader} {item : Item} (hr' : r'.piece ≠ [])
    (hdeclare : r'.declare = some (r.within header ds items)) (hpiece : r.piece = [])
    (h : Open.item? ⟨header, ds, items⟩ = some item) : r'.close = some (r.add [item]) := by
  have hne : r'.piece.isEmpty = false := by simp [hr']
  rw [close, hne, hdeclare]
  exact leave_within hpiece h

end Reader

open Reader

section Blocks
variable {r : Reader} {header : Text} {ds pairs : List (Text × Text)}

/-- A header and a brace enter a block. -/
theorem reads_header (hpiece : r.piece = []) (h : Unmarked header) :
    Reads r (header ++ [lbrace]) (r.within header [] []) := by
  have hbrace : Reads { r with piece := r.piece ++ header } [lbrace]
      ⟨[], ⟨r.piece ++ header, [], []⟩ :: r.blocks, r.items⟩ := reads_byte rfl
  rw [hpiece, List.nil_append] at hbrace
  have hheader := reads_unmarked h r
  rw [hpiece, List.nil_append] at hheader
  exact hheader.append hbrace

/-- After some declarations a reader stands in the last of them, which may end any time. -/
structure InLast (r r' : Reader) (header : Text) (ds : List (Text × Text)) : Prop where
  piece_ne : r'.piece ≠ []
  head_ne : r'.piece.head? ≠ some atSign
  declare : r'.declare = some (r.within header ds [])

theorem declare_written {d : Text × Text} (h : LegiblePair d) :
    InLast r { r.within header ds [] with piece := written d } header (ds ++ [d]) where
  piece_ne := h.head_written.2
  head_ne := h.head_written.1
  declare := by simp [declare, within, h.pair?]

theorem InLast.endPiece {r' : Reader} (h : InLast r r' header ds) :
    r'.endPiece = some (r.within header ds []) := by
  rw [Reader.endPiece, if_neg h.head_ne, h.declare]

/-- The last declaration has no semicolon, so the reader still waits for its end. The induction is
on the declarations. -/
theorem reads_declarations (hne : pairs ≠ []) (h : ∀ d ∈ pairs, LegiblePair d) :
    ∃ r', Reads (r.within header ds []) (Text.join [semicolon] (pairs.map written)) r' ∧
      InLast r r' header (ds ++ pairs) := by
  induction pairs generalizing ds with
  | nil => exact absurd rfl hne
  | cons d pairs ih =>
    obtain ⟨hd, hpairs⟩ := List.forall_mem_cons.mp h
    have hread : Reads (r.within header ds []) (written d) _ := reads_unmarked hd.unmarked _
    have hlast := @declare_written r header ds d hd
    cases pairs with
    | nil => exact ⟨_, hread, hlast⟩
    | cons next rest =>
      obtain ⟨r', hrest, hin⟩ := @ih (ds ++ [d]) (List.cons_ne_nil _ _) hpairs
      refine ⟨r', ?_, by simpa using hin⟩
      exact (hread.append (reads_semicolon hlast.endPiece)).append hrest

end Blocks

/-! ### Nodes -/

section Nodes
open Style.Compressed
variable {r : Reader} {header : Text} {body : List Css} {item : Item}

/-- The declarations of a block that is closed right after them. -/
theorem reads_closed (hpiece : r.piece = []) (h : AllLegible body)
    (hitem : Open.item? ⟨header, declared body, []⟩ = some item) :
    Reads (r.within header [] []) (declarations body ++ [rbrace]) (r.add [item]) := by
  rw [declarations_eq]
  by_cases hnil : declared body = []
  · rw [hnil] at hitem ⊢
    exact reads_rbrace (close_within hpiece hitem)
  · obtain ⟨r', hread, hin⟩ := reads_declarations hnil h.pairs
    exact hread.append (reads_rbrace (close_of_declare hin.piece_ne hin.declare hpiece hitem))

/-- The inner part of a block and the brace that closes it. -/
theorem reads_inner (hpiece : r.piece = []) (h : AllLegible body)
    (hnodes : ∀ r : Reader, r.piece = [] → Reads r (nodes body) (r.add (allFlat body)))
    (hitem : Open.item? ⟨header, declared body, allFlat body⟩ = some item) :
    Reads (r.within header [] [])
      (declarations body ++ separator body ++ nodes body ++ [rbrace]) (r.add [item]) := by
  by_cases hproperties : hasProperties body = true
  · rw [separator, hproperties]
    by_cases hnested : body.any (fun c => !c.isInline) = true
    · -- something may be nested, so that the last declaration has its semicolon
      have hne : declared body ≠ [] := by
        intro hnil
        rw [declared_eq_nil, hproperties] at hnil
        cases hnil
      obtain ⟨r', hread, hin⟩ := @reads_declarations r header [] _ hne h.pairs
      rw [hnested, declarations_eq]
      have hdeclared := hread.append (reads_semicolon hin.endPiece)
      have hall := hdeclared.append (hnodes _ rfl)
      exact hall.append (reads_rbrace (close_within hpiece hitem))
    · rw [Bool.not_eq_true] at hnested
      rw [allFlat_of_inline hnested] at hitem
      rw [hnested, (nothing_nested hnested).1]
      simpa using reads_closed hpiece h hitem
  · rw [Bool.not_eq_true] at hproperties
    rw [separator, hproperties, declarations_of_none hproperties]
    rw [declared_eq_nil.mpr hproperties] at hitem
    have hall := hnodes (r.within header [] []) rfl
    exact hall.append (reads_rbrace (close_within hpiece hitem))

mutual

/-- **A node is read back** wherever it stands. -/
theorem reads_node :
    ∀ c : Css, c.Legible → ∀ r : Reader, r.piece = [] → Reads r (node c) (r.add c.flat)
  | .rule selectors body, h, r, hpiece => by
    obtain ⟨hselectors, hhead, hbody⟩ := h
    have hnested (r : Reader) (hr : r.piece = []) := reads_nodes body hbody r hr
    rw [node, flat]
    cases hdeclared : declared body with
    | nil =>
      rw [declared_eq_nil.mp hdeclared]
      exact hnested r hpiece
    | cons first rest =>
      have hproperties : hasProperties body = true := by
        rw [← Bool.not_eq_false, ← declared_eq_nil, hdeclared]
        exact List.cons_ne_nil _ _
      have hitem : Open.item? ⟨joinSelectors "," "," selectors, declared body, []⟩ =
          some (.rule (joinSelectors "," "," selectors) (declared body)) := by
        simp [Open.item?, hhead]
      have hopen := reads_header hpiece (unmarked_joinSelectors hselectors)
      have hown := hopen.append (reads_closed hpiece hbody hitem)
      have hall := hown.append (hnested (r.add _) (by rw [piece_add, hpiece]))
      rw [← add_append, hdeclared] at hall
      rw [if_pos hproperties]
      simpa using hall
  | .directive text [], h, r, hpiece => by
    obtain ⟨htext, hhead, -⟩ := h
    have hread := reads_unmarked htext r
    rw [hpiece, List.nil_append] at hread
    have hend : Reader.endPiece { r with piece := text } = some (r.add [.statement text]) := by
      obtain ⟨piece, blocks, top⟩ := r
      cases hpiece
      simp [Reader.endPiece, hhead]
    rw [node, flat]
    exact hread.append (reads_semicolon hend)
  | .directive text (first :: rest), h, r, hpiece => by
    obtain ⟨htext, hhead, hbody⟩ := h
    have hitem : Open.item? ⟨text, declared (first :: rest), allFlat (first :: rest)⟩ =
        some (.block text (declared (first :: rest)) (allFlat (first :: rest))) := by
      simp [Open.item?, hhead]
    have hinner := reads_inner hpiece hbody (reads_nodes (first :: rest) hbody) hitem
    have hall := (reads_header hpiece htext).append hinner
    rw [node, flat]
    simpa using hall
  | .property name value, _, r, _ => by
    rw [node, flat, add_nil]
    exact .nil r
  | .comment lines, _, r, _ => by
    rw [node, flat, add_nil]
    exact .nil r

/-- Nodes are read one after the other, each from where the one before it has ended. -/
theorem reads_nodes :
    ∀ body : List Css, AllLegible body → ∀ r : Reader, r.piece = [] →
      Reads r (nodes body) (r.add (allFlat body))
  | [], _, r, _ => by
    rw [nodes, allFlat, add_nil]
    exact .nil r
  | c :: rest, h, r, hpiece => by
    rw [nodes, allFlat, add_append]
    have hpiece' : (r.add c.flat).piece = [] := by rw [piece_add, hpiece]
    exact (reads_node c h.1 r hpiece).append (reads_nodes rest h.2 _ hpiece')

end

end Nodes

/-- **Compressed sheets can be read back.** If all declarations stand in blocks, and no text of a
sheet has a mark of the grammar where it would be taken for one, then a reader of the block grammar
finds in the compressed text exactly the rules with their declarations, the statements and the
blocks of the sheet, in order and with rules side by side. -/
theorem read_compressed (sheet : List Css) (hroot : ∀ c ∈ sheet, c.isProperty = false)
    (hlegible : AllLegible sheet) :
    read (Style.compressed.render sheet) = some (allFlat sheet) := by
  have hnone : hasProperties sheet = false := by
    rw [hasProperties, List.any_eq_false]
    intro c hc
    rw [hroot c hc]
    exact Bool.false_ne_true
  have htext : Style.compressed.render sheet = Style.Compressed.nodes sheet := by
    show Style.Compressed.render sheet = _
    rw [Style.Compressed.render, Style.Compressed.declarations_of_none hnone,
      Style.Compressed.separator, hnone]
    rfl
  rw [read, htext, reads_nodes sheet hlegible .start rfl]
  rfl

/-- A sheet in which declarations, comments, empty rules and directives are mixed: only some of the
declarations need a semicolon. -/
def crowdedSheet : List Css :=
  [.directive "@charset x" [], .comment ["first"],
    .rule [["a", "b:hover"], ["c"]] [.property "p" "1:2", .comment ["inner"], .property "q" "",
      .rule [["a d"]] [.rule [["a d e"]] [.property "r" "3"]], .directive "@page" [.comment []]],
    .directive "@media print" [.rule [["f"]] [], .property "s" "4", .directive "@import y" [],
      .directive "@top" [.property "t" "5", .comment ["last"]]],
    .directive "@media all" [.property "u" "6", .rule [[]] []]]

/-- A statement, selectors with a colon, an empty value and nested blocks. -/
theorem read_compressed_crowded :
    (∀ c ∈ crowdedSheet, c.isProperty = false) ∧ AllLegible crowdedSheet ∧
      read (Style.compressed.render crowdedSheet) = some
        [.statement "@charset x", .rule "a,b:hover,c" [("p", "1:2"), ("q", "")],
          .rule "a d e" [("r", "3")], .block "@page" [] [],
          .block "@media print" [("s", "4")]
            [.statement "@import y", .block "@top" [("t", "5")] []],
          .block "@media all" [("u", "6")] []] := by
  have hroot : ∀ c ∈ crowdedSheet, c.isProperty = false := by decide
  have hlegible : AllLegible crowdedSheet := by decide +kernel
  exact ⟨hroot, hlegible, read_compressed crowdedSheet hroot hlegible⟩

end Blocks

end IndentedSass
