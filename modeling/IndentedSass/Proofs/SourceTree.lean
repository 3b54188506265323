import IndentedSass.Proofs.BlankLines
import IndentedSass.Proofs.Outcome
import Mathlib.Data.List.TakeDrop
import Mathlib.Data.List.TakeWhile

/-!
# The tree of a source mirrors its lines

`Source.nodes` lists the nodes of a tree in pre-order with their depths: a statement, what is nested
beneath it, then the further branches of a choice. `Source.ofLines` takes the lines of a source off
one by one, and several readers take further lines along: the rest of a comment, the lines of a
selector, what is nested beneath a silent line. This module shows that every line is taken exactly
once and by whom:

* `classify_takes`: what one line takes, whatever it is classified as;
* `build_runs`: a level of the tree takes a row of runs, one for each of its nodes and one for each
  silent line, and stops at the first line that is indented less.

The lines of a source that are not blank are then the runs of its tree, in order.
-/

namespace IndentedSass

/-! ## Nodes in pre-order -/

/-- What matters about a node for the lines it takes. -/
inductive NodeKind where
  /-- A rule with so many lines of selectors. -/
  | rule (lines : Nat)
  | comment
  /-- Anything else, among it each branch of a choice. -/
  | plain
  deriving DecidableEq, Repr

/-- A node of a tree and its depth. -/
structure TreeNode where
  depth : Nat
  pos : Position
  kind : NodeKind
  deriving DecidableEq, Repr

mutual

/-- The nodes of a statement at the given depth, in pre-order. -/
def Statement.nodes (depth : Nat) : Statement → List TreeNode
  | .rule pos selectors body =>
    ⟨depth, pos, .rule selectors.length⟩ :: Statement.nodesOf (depth + 1) body
  | .property pos _ _ _ body => ⟨depth, pos, .plain⟩ :: Statement.nodesOf (depth + 1) body
  | .assign pos .. => [⟨depth, pos, .plain⟩]
  | .mixin pos _ _ body => ⟨depth, pos, .plain⟩ :: Statement.nodesOf (depth + 1) body
  | .call pos .. => [⟨depth, pos, .plain⟩]
  | .imports pos .. => [⟨depth, pos, .plain⟩]
  | .forLoop pos _ _ _ _ _ body => ⟨depth, pos, .plain⟩ :: Statement.nodesOf (depth + 1) body
  | .choice head more => Statement.branchNodes depth head ++ Statement.branchesNodes depth more
  | .whileLoop pos _ _ body => ⟨depth, pos, .plain⟩ :: Statement.nodesOf (depth + 1) body
  | .directive pos _ body => ⟨depth, pos, .plain⟩ :: Statement.nodesOf (depth + 1) body
  | .comment pos _ => [⟨depth, pos, .comment⟩]

/-- The nodes of several statements of one depth. -/
def Statement.nodesOf (depth : Nat) : List Statement → List TreeNode
  | [] => []
  | s :: rest => s.nodes depth ++ Statement.nodesOf depth rest

/-- The nodes of a branch, which has the depth of its choice. -/
def Statement.branchNodes (depth : Nat) : Branch Statement → List TreeNode
  | ⟨pos, _, body⟩ => ⟨depth, pos, .plain⟩ :: Statement.nodesOf (depth + 1) body

/-- The nodes of several branches of one choice. -/
def Statement.branchesNodes (depth : Nat) : List (Branch Statement) → List TreeNode
  | [] => []
  | b :: rest => Statement.branchNodes depth b ++ Statement.branchesNodes depth rest

end

/-- The nodes of a whole source in pre-order, those of the outermost level having depth zero. -/
def Source.nodes (src : Source) : List TreeNode := Statement.nodesOf 0 src.body

namespace Statement

@[simp] theorem nodesOf_nil (depth : Nat) : nodesOf depth [] = [] := by
  rw [nodesOf]

theorem nodesOf_append (depth : Nat) (ss more : List Statement) :
    nodesOf depth (ss ++ more) = nodesOf depth ss ++ nodesOf depth more := by
  induction ss with
  | nil => rw [nodesOf_nil]; rfl
  | cons s ss ih => rw [List.cons_append, nodesOf, nodesOf, ih, List.append_assoc]

/-- The nodes of statements that are kept in reverse, with one more at the end. -/
theorem nodesOf_reverse_cons (depth : Nat) (s : Statement) (done : List Statement) :
    nodesOf depth (s :: done).reverse = nodesOf depth done.reverse ++ s.nodes depth := by
  rw [List.reverse_cons, nodesOf_append, nodesOf, nodesOf_nil, List.append_nil]

theorem branchesNodes_append (depth : Nat) (bs more : List (Branch Statement)) :
    branchesNodes depth (bs ++ more) = branchesNodes depth bs ++ branchesNodes depth more := by
  induction bs with
  | nil => rw [branchesNodes]; rfl
  | cons b bs ih => rw [List.cons_append, branchesNodes, branchesNodes, ih, List.append_assoc]

/-- A further branch comes after all nodes of the choice so far. -/
theorem nodes_choice_further (depth : Nat) (head b : Branch Statement)
    (more : List (Branch Statement)) :
    (choice head (more ++ [b])).nodes depth =
      (choice head more).nodes depth ++ branchNodes depth b := by
  rw [nodes, nodes, branchesNodes_append, branchesNodes, branchesNodes, List.append_nil,
    List.append_assoc]

theorem nodes_subset_nodesOf {s : Statement} {ss : List Statement} (h : s ∈ ss) (depth : Nat) :
    s.nodes depth ⊆ nodesOf depth ss := by
  obtain ⟨before, after, rfl⟩ := List.append_of_mem h
  rw [nodesOf_append, nodesOf]
  exact List.subset_append_of_subset_right _ (List.subset_append_left _ _)

theorem branchNodes_subset_branchesNodes {b : Branch Statement} {bs : List (Branch Statement)}
    (h : b ∈ bs) (depth : Nat) : branchNodes depth b ⊆ branchesNodes depth bs := by
  obtain ⟨before, after, rfl⟩ := List.append_of_mem h
  rw [branchesNodes_append, branchesNodes]
  exact List.subset_append_of_subset_right _ (List.subset_append_left _ _)

/-- Every statement is a node at its own depth. -/
theorem exists_mem_nodes (s : Statement) (depth : Nat) :
    ∃ kind, ⟨depth, s.pos, kind⟩ ∈ s.nodes depth := by
  cases s with
  | choice head more =>
    rw [nodes, branchNodes]
    exact ⟨_, List.mem_cons_self⟩
  | _ =>
    rw [nodes]
    exact ⟨_, List.mem_cons_self⟩

end Statement

namespace Source
open Ascii

/-! ## Runs of lines -/

/-- The lines that go together: a first line, the ones it takes along, and the node they make up,
if any. -/
structure LineRun where
  first : Line
  more : List Line
  node : Option TreeNode

/-- A line that leaves nothing in the tree: a silent comment or a debugging directive. -/
def IsSilent (l : Line) : Prop :=
  (∃ rest, l.text = slash :: slash :: rest) ∨
    ∃ word after, Header.keyword? l.text = some (word, after) ∧ word.lower = ("debug" : Text)

/-- A selector line after which the next line goes on; a brace at its end does not count. -/
def GoesOn (l : Line) : Prop := (selectorText l.text).getLast? = some comma

/-- `beneath` are all lines that are indented more than `l`, up to the first that is not. -/
def Beneath (l : Line) (beneath following : List Line) : Prop :=
  (∀ x ∈ beneath, l.indent < x.indent) ∧ ∀ x ∈ following.head?, x.indent ≤ l.indent

/-- The lines of a selector: all but the last go on, and all are indented alike. -/
def IsSelector (l : Line) (more : List Line) : Prop :=
  (∀ x ∈ more, x.indent = l.indent) ∧ (∀ x ∈ (l :: more).dropLast, GoesOn x) ∧
    ∀ x ∈ (l :: more).getLast?, ¬ GoesOn x

namespace LineRun

/-- The lines of a run in order. -/
def lines (r : LineRun) : List Line := r.first :: r.more

/-- What a node of a kind takes along after its first line. -/
def Takes (l : Line) (more following : List Line) : NodeKind → Prop
  | .rule count => more.length + 1 = count ∧ IsSelector l more
  | .comment => Beneath l more following
  | .plain => more = []

/-- Whether a run, with the lines that follow it, is as its node requires. -/
def Proper (r : LineRun) (following : List Line) : Prop :=
  match r.node with
  | none => IsSilent r.first ∧ Beneath r.first r.more following
  | some n => n.pos = r.first.position ∧ Takes r.first r.more following n.kind

/-- Whether all runs of a row are proper, `following` being the lines after the last one. -/
def AllProper (following : List Line) : List LineRun → Prop
  | [] => True
  | r :: runs => r.Proper (runs.flatMap lines ++ following) ∧ AllProper following runs

theorem AllProper.append {following : List Line} {runs more : List LineRun}
    (h : AllProper (more.flatMap lines ++ following) runs) (hmore : AllProper following more) :
    AllProper following (runs ++ more) := by
  induction runs with
  | nil => exact hmore
  | cons r runs ih =>
    refine ⟨?_, ih h.2⟩
    show r.Proper ((runs ++ more).flatMap lines ++ following)
    rw [List.flatMap_append, List.append_assoc]
    exact h.1

/-- The nodes stand at lines of their runs, in the order of the lines. -/
theorem AllProper.positions_sublist {following : List Line} {runs : List LineRun}
    (h : AllProper following runs) :
    ((runs.filterMap node).map TreeNode.pos).Sublist ((runs.flatMap lines).map Line.position) := by
  induction runs with
  | nil => exact List.Sublist.refl _
  | cons r runs ih =>
    have hrest := ih h.2
    have hskip : ((runs.filterMap node).map TreeNode.pos).Sublist
        (r.more.map Line.position ++ (runs.flatMap lines).map Line.position) :=
      hrest.trans (List.sublist_append_right _ _)
    have hfirst := h.1
    rw [List.flatMap_cons, List.map_append]
    cases hnode : r.node with
    | none =>
      rw [List.filterMap_cons_none hnode]
      exact hskip.cons _
    | some n =>
      rw [Proper, hnode] at hfirst
      rw [List.filterMap_cons_some hnode, List.map_cons, hfirst.1]
      exact hskip.cons_cons _

end LineRun

/-! ## What one line takes -/

/-- None of the lines is blank. -/
def AllFilled (lines : List Line) : Prop := ∀ l ∈ lines, l.blank = false

theorem allFilled_filled (lines : List Line) : AllFilled (filled lines) :=
  fun _ => blank_of_mem_filled

theorem AllFilled.of_append {lines rest : List Line} (h : AllFilled (lines ++ rest)) :
    AllFilled rest :=
  fun l hl => h l (List.mem_append_right _ hl)

theorem beneath_nested (l : Line) {rest : List Line} (hrest : AllFilled rest) :
    rest = (nested l rest).1 ++ (nested l rest).2 ∧
      Beneath l (nested l rest).1 (nested l rest).2 := by
  induction rest with
  | nil => exact ⟨rfl, List.forall_mem_nil _, fun x hx => by cases hx⟩
  | cons next rest ih =>
    obtain ⟨hnext, hrest⟩ := List.forall_mem_cons.mp hrest
    obtain ⟨happend, hbeneath, hfollowing⟩ := ih hrest
    rw [nested, if_neg (Bool.eq_false_iff.mp hnext)]
    split
    · rename_i hdeeper
      refine ⟨congrArg (next :: ·) happend, ?_, hfollowing⟩
      exact List.forall_mem_cons.mpr ⟨hdeeper, hbeneath⟩
    · rename_i hdeeper
      refine ⟨rfl, List.forall_mem_nil _, fun x hx => ?_⟩
      rw [← Option.some.inj hx]
      exact Nat.not_lt.mp hdeeper

theorem isSelector_single {l : Line} (h : ¬ GoesOn l) : IsSelector l [] := by
  refine ⟨List.forall_mem_nil _, List.forall_mem_nil _, ?_⟩
  intro x hx
  rw [← Option.some.inj hx]
  exact h

theorem isSelector_cons {l next : Line} {more : List Line} (hl : GoesOn l)
    (hindent : next.indent = l.indent) (h : IsSelector next more) :
    IsSelector l (next :: more) := by
  refine ⟨?_, ?_, h.2.2⟩
  · intro x hx
    rcases List.mem_cons.mp hx with rfl | hx
    · exact hindent
    · exact (h.1 x hx).trans hindent
  · intro x hx
    rcases List.mem_cons.mp hx with rfl | hx
    · exact hl
    · exact h.2.1 x hx

/-- The lines of a selector, one group of selectors for each. -/
theorem selectorLines_takes {l : Line} {rest rest' : List Line} {groups : List (List Text)}
    (hrest : AllFilled rest) (h : selectorLines l.indent l.text rest = .ok (groups, rest')) :
    ∃ more, rest = more ++ rest' ∧ more.length + 1 = groups.length ∧ IsSelector l more := by
  induction rest generalizing l groups with
  | nil =>
    rw [selectorLines] at h
    split at h
    · cases h
    · rename_i hlast
      cases h
      exact ⟨[], rfl, rfl, isSelector_single hlast⟩
  | cons next rest ih =>
    obtain ⟨hnext, hrest⟩ := List.forall_mem_cons.mp hrest
    rw [selectorLines] at h
    split at h
    · rename_i hlast
      rw [if_neg (Bool.eq_false_iff.mp hnext)] at h
      split at h
      · rename_i hindent
        rw [← hindent] at h
        obtain ⟨⟨groups', rest''⟩, hgroups, h⟩ := Outcome.of_bind_eq_ok h
        cases h
        obtain ⟨more, happend, hlen, hsel⟩ := ih hrest hgroups
        exact ⟨next :: more, by rw [happend]; rfl, congrArg (· + 1) hlen,
          isSelector_cons hlast hindent hsel⟩
      · cases h
    · rename_i hlast
      cases h
      exact ⟨[], rfl, rfl, isSelector_single hlast⟩

/-- What a line takes along, by what it turned out to be. A statement that opens a block has a kind
that does not depend on the block. -/
def Shape.Takes (l : Line) (before : Option Statement) (more following : List Line) :
    Shape → Prop
  | .skipped => IsSilent l ∧ Beneath l more following
  | .closed s => ∃ kind, (∀ depth, s.nodes depth = [⟨depth, l.position, kind⟩]) ∧
      LineRun.Takes l more following kind
  | .opens make => ∃ kind, (∀ depth body, (make body).nodes depth =
        ⟨depth, l.position, kind⟩ :: Statement.nodesOf (depth + 1) body) ∧
      LineRun.Takes l more following kind
  | .further head others _ => before = some (.choice head others) ∧ more = []

/-- A reader took some lines off the rest, as the shape of its line requires. -/
def Took (l : Line) (before : Option Statement) (rest : List Line) (shape : Shape)
    (rest' : List Line) : Prop :=
  ∃ more, rest = more ++ rest' ∧ shape.Takes l before more rest'

section Readers
variable {l : Line} {before : Option Statement} {rest rest' : List Line} {shape : Shape}

theorem took_opens {make : List Statement → Statement}
    (h : ∀ depth body, (make body).nodes depth =
      ⟨depth, l.position, .plain⟩ :: Statement.nodesOf (depth + 1) body) :
    Took l before rest (.opens make) rest :=
  ⟨[], rfl, .plain, h, rfl⟩

theorem leaf_takes {what : Text} {s : Statement}
    (hs : ∀ depth, s.nodes depth = [⟨depth, l.position, .plain⟩])
    (h : leaf l rest what s = .ok (shape, rest')) : Took l before rest shape rest' := by
  rw [leaf] at h
  split at h
  · cases h
  · cases h
    exact ⟨[], rfl, .plain, hs, rfl⟩

theorem comment_takes (hrest : AllFilled rest) (h : comment l rest = .ok (shape, rest')) :
    Took l before rest shape rest' := by
  obtain ⟨happend, hbeneath⟩ := beneath_nested l hrest
  rw [comment] at h
  dsimp only at h
  split at h
  · rename_i s hs
    cases h
    exact ⟨_, happend, Or.inl ⟨s, hs⟩, hbeneath⟩
  · cases h
    exact ⟨_, happend, .comment, fun depth => by rw [Statement.nodes], hbeneath⟩
  · cases h

theorem otherwise_takes (h : otherwise l rest before = .ok (shape, rest')) :
    Took l before rest shape rest' := by
  rw [otherwise] at h
  split at h
  · cases h
  · split at h
    · split at h
      · cases h
      · cases h
        exact ⟨[], rfl, rfl, rfl⟩
    · cases h

theorem directive_takes (hrest : AllFilled rest)
    (h : directive l rest before = .ok (shape, rest')) :
    Took l before rest shape rest' := by
  rw [directive] at h
  split at h
  · cases h
  · rename_i word after hword
    dsimp only at h
    -- the keywords one by one: loops, choices, silent lines, then any other directive
    split at h
    · split at h
      · cases h
      · exact leaf_takes (fun depth => by rw [Statement.nodes]) h
    split at h
    · split at h
      · cases h
      · cases h
        exact took_opens fun depth body => by rw [Statement.nodes]
    split at h
    · split at h
      · cases h
      · cases h
        refine took_opens fun depth body => ?_
        rw [Statement.nodes, Statement.branchNodes, Statement.branchesNodes, List.append_nil]
    split at h
    · exact otherwise_takes h
    split at h
    · split at h
      · cases h
      · cases h
        exact took_opens fun depth body => by rw [Statement.nodes]
    split at h
    · rename_i hdebug
      cases h
      obtain ⟨happend, hbeneath⟩ := beneath_nested l hrest
      exact ⟨_, happend, Or.inr ⟨word, after, hword, hdebug⟩, hbeneath⟩
    · cases h
      exact took_opens fun depth body => by rw [Statement.nodes]

theorem mixin_takes (h : mixin l rest = .ok (shape, rest')) : Took l before rest shape rest' := by
  rw [mixin] at h
  split at h
  · cases h
  · split at h
    · cases h
    · obtain ⟨ps, -, h⟩ := Outcome.of_bind_eq_ok h
      cases h
      exact took_opens fun depth body => by rw [Statement.nodes]

theorem call_takes (h : call l rest = .ok (shape, rest')) : Took l before rest shape rest' := by
  rw [call] at h
  split at h
  · cases h
  · exact leaf_takes (fun depth => by rw [Statement.nodes]) h

theorem assign_takes (h : assign l rest = .ok (shape, rest')) :
    Took l before rest shape rest' := by
  rw [assign] at h
  split at h
  · cases h
  · exact leaf_takes (fun depth => by rw [Statement.nodes]) h

theorem property_takes {d : Header.Declaration} (h : property l rest d = .ok (shape, rest')) :
    Took l before rest shape rest' := by
  rw [property] at h
  split at h
  · cases h
  · cases h
    exact took_opens fun depth body => by rw [Statement.nodes]

theorem rule_takes (hrest : AllFilled rest) (h : rule l rest = .ok (shape, rest')) :
    Took l before rest shape rest' := by
  rw [rule] at h
  obtain ⟨⟨groups, rest''⟩, hsel, h⟩ := Outcome.of_bind_eq_ok h
  cases h
  obtain ⟨more, happend, hlen, hlines⟩ := selectorLines_takes hrest hsel
  exact ⟨more, happend, .rule groups.length, fun depth body => by rw [Statement.nodes],
    hlen, hlines⟩

/-- **What one line takes**, whatever it is classified as. -/
theorem classify_takes {way : PropertySyntax} (hrest : AllFilled rest)
    (h : classify way l rest before = .ok (shape, rest')) : Took l before rest shape rest' := by
  rw [classify] at h
  split at h
  · exact comment_takes hrest h
  · exact directive_takes hrest h
  · exact mixin_takes h
  · exact call_takes h
  · exact assign_takes h
  · exact assign_takes h
  · split at h
    · exact property_takes h
    · exact rule_takes hrest h

end Readers

/-! ## The whole tree -/

theorem locating_eq_ok {α : Type} {l : Line} {e : Except Fault α} {a : α}
    (h : locating l e = .ok a) : e = .ok a := by
  cases e with
  | ok b => exact h
  | error fault => cases h

/-- A row of proper runs for the lines up to `rest`, and the nodes they make up. Each node is
indented by its depth. -/
def Runs (lines : List Line) (nodes : List TreeNode) (rest : List Line) : Prop :=
  ∃ runs : List LineRun, lines = runs.flatMap LineRun.lines ++ rest ∧
    LineRun.AllProper rest runs ∧ runs.filterMap LineRun.node = nodes ∧
    ∀ n ∈ nodes, n.pos.indent = n.depth

namespace Runs

theorem refl (lines : List Line) : Runs lines [] lines :=
  ⟨[], rfl, trivial, rfl, List.forall_mem_nil _⟩

theorem trans {lines middle rest : List Line} {nodes more : List TreeNode}
    (h : Runs lines nodes middle) (hmore : Runs middle more rest) :
    Runs lines (nodes ++ more) rest := by
  obtain ⟨runs, rfl, hproper, rfl, hdepth⟩ := h
  obtain ⟨runs', rfl, hproper', rfl, hdepth'⟩ := hmore
  refine ⟨runs ++ runs', ?_, hproper.append hproper', List.filterMap_append, ?_⟩
  · rw [List.flatMap_append, List.append_assoc]
  · intro n hn
    rcases List.mem_append.mp hn with hn | hn
    · exact hdepth n hn
    · exact hdepth' n hn

/-- A single run that makes up no node. -/
theorem silent {l : Line} {more rest : List Line} (hl : IsSilent l)
    (hmore : Beneath l more rest) : Runs (l :: (more ++ rest)) [] rest :=
  ⟨[⟨l, more, none⟩], by simp [LineRun.lines], ⟨⟨hl, hmore⟩, trivial⟩, rfl,
    List.forall_mem_nil _⟩

/-- A single run that makes up a node. -/
theorem single {l : Line} {more rest : List Line} {kind : NodeKind}
    (hmore : LineRun.Takes l more rest kind) :
    Runs (l :: (more ++ rest)) [⟨l.indent, l.position, kind⟩] rest := by
  refine ⟨[⟨l, more, some ⟨l.indent, l.position, kind⟩⟩], by simp [LineRun.lines],
    ⟨⟨rfl, hmore⟩, trivial⟩, rfl, ?_⟩
  intro n hn
  rw [List.mem_singleton.mp hn]
  rfl

theorem allFilled {lines rest : List Line} {nodes : List TreeNode} (h : Runs lines nodes rest)
    (hlines : AllFilled lines) : AllFilled rest := by
  obtain ⟨runs, rfl, -⟩ := h
  exact hlines.of_append

theorem length_le {lines rest : List Line} {nodes : List TreeNode} (h : Runs lines nodes rest) :
    rest.length ≤ lines.length := by
  obtain ⟨runs, rfl, -⟩ := h
  rw [List.length_append]
  exact Nat.le_add_left _ _

end Runs

/-- **A level of the tree takes a row of runs.** The induction is on the fuel, which the lines
bound; `done` holds what came before on the same level, and a further branch still adds to the last
of it. -/
theorem build_runs {way : PropertySyntax} {fuel level : Nat} {done body : List Statement}
    {lines rest : List Line} (hfuel : lines.length ≤ fuel) (hlines : AllFilled lines)
    (h : build way fuel level done lines = .ok (body, rest)) :
    (∃ nodes, Runs lines nodes rest ∧
      Statement.nodesOf level body = Statement.nodesOf level done.reverse ++ nodes) ∧
      ∀ x ∈ rest.head?, x.indent < level := by
  induction fuel generalizing level done body lines rest with
  | zero =>
    obtain rfl : lines = [] := List.length_eq_zero_iff.mp (Nat.le_zero.mp hfuel)
    cases h
    exact ⟨⟨[], .refl _, (List.append_nil _).symm⟩, fun x hx => nomatch hx⟩
  | succ fuel ih =>
    cases lines with
    | nil =>
      cases h
      exact ⟨⟨[], .refl _, (List.append_nil _).symm⟩, fun x hx => nomatch hx⟩
    | cons l after =>
      obtain ⟨hl, hafter⟩ := List.forall_mem_cons.mp hlines
      rw [build, upcoming_cons hl] at h
      dsimp only at h
      split at h
      · rename_i hless
        cases h
        refine ⟨⟨[], .refl _, (List.append_nil _).symm⟩, fun x hx => ?_⟩
        rw [← Option.some.inj hx]
        exact hless
      split at h
      · cases h
      · rename_i hnotless hnotmore
        obtain rfl : l.indent = level := Nat.le_antisymm (Nat.not_lt.mp hnotmore)
          (Nat.not_lt.mp hnotless)
        obtain ⟨⟨shape, rest₁⟩, hclass, hgo⟩ := Outcome.of_bind_eq_ok h
        obtain ⟨more, rfl, htakes⟩ := classify_takes hafter (locating_eq_ok hclass)
        have hfilled₁ : AllFilled rest₁ := AllFilled.of_append hafter
        have hlen₁ : rest₁.length ≤ fuel := by
          rw [List.length_cons, List.length_append] at hfuel
          omega
        cases shape with
        | skipped =>
          obtain ⟨⟨nodes, hruns, hnodes⟩, hrest⟩ := ih hlen₁ hfilled₁ hgo
          exact ⟨⟨nodes, (Runs.silent htakes.1 htakes.2).trans hruns, hnodes⟩, hrest⟩
        | closed s =>
          obtain ⟨kind, hs, hmore⟩ := htakes
          obtain ⟨⟨nodes, hruns, hnodes⟩, hrest⟩ := ih hlen₁ hfilled₁ hgo
          refine ⟨⟨_, (Runs.single hmore).trans hruns, ?_⟩, hrest⟩
          rw [hnodes, Statement.nodesOf_reverse_cons, hs, List.append_assoc]
        | opens make =>
          obtain ⟨kind, hmake, hmore⟩ := htakes
          obtain ⟨⟨inner, rest₂⟩, hinner, hgo⟩ := Outcome.of_bind_eq_ok hgo
          obtain ⟨⟨below, hbelow, hin⟩, -⟩ := ih hlen₁ hfilled₁ hinner
          obtain ⟨⟨nodes, hruns, hnodes⟩, hrest⟩ :=
            ih (hbelow.length_le.trans hlen₁) (hbelow.allFilled hfilled₁) hgo
          refine ⟨⟨_, ((Runs.single hmore).trans hbelow).trans hruns, ?_⟩, hrest⟩
          rw [hnodes, Statement.nodesOf_reverse_cons, hmake, hin]
          simp
        | further head others test =>
          obtain ⟨hbefore, rfl⟩ := htakes
          obtain ⟨⟨inner, rest₂⟩, hinner, hgo⟩ := Outcome.of_bind_eq_ok hgo
          obtain ⟨⟨below, hbelow, hin⟩, -⟩ := ih hlen₁ hfilled₁ (locating_eq_ok hinner)
          obtain ⟨⟨nodes, hruns, hnodes⟩, hrest⟩ :=
            ih (hbelow.length_le.trans hlen₁) (hbelow.allFilled hfilled₁) hgo
          have hmore : LineRun.Takes l [] rest₁ .plain := rfl
          refine ⟨⟨_, ((Runs.single hmore).trans hbelow).trans hruns, ?_⟩, hrest⟩
          -- the choice that the branch belongs to is the last statement so far
          obtain ⟨done, rfl⟩ : ∃ tail, done = .choice head others :: tail := by
            cases done with
            | nil => cases hbefore
            | cons s tail => exact ⟨tail, by rw [Option.some.inj hbefore]⟩
          rw [hnodes, List.tail_cons, Statement.nodesOf_reverse_cons,
            Statement.nodesOf_reverse_cons, Statement.nodes_choice_further,
            Statement.branchNodes, hin]
          simp

end Source

namespace Line

theorem ofRaw_number {unit : Indentation} {file raw : Text} {number : Int} {l : Line}
    (h : ofRaw unit file number raw = .ok l) : l.number = number := by
  rw [ofRaw] at h
  split at h
  · cases h
    rfl
  · split at h
    · cases h
      rfl
    · cases h

/-- The lines of a source are numbered upwards. -/
theorem ofRaws_numbers {unit : Indentation} {file : Text} {number : Int} {raws : List Text}
    {lines : List Line} (h : ofRaws unit file number raws = .ok lines) :
    (∀ l ∈ lines, number ≤ l.number) ∧ lines.Pairwise fun l next => l.number < next.number := by
  induction raws generalizing number lines with
  | nil =>
    cases h
    exact ⟨List.forall_mem_nil _, .nil⟩
  | cons raw raws ih =>
    rw [ofRaws] at h
    obtain ⟨l, hl, h⟩ := Outcome.of_bind_eq_ok h
    obtain ⟨rest, hrest, h⟩ := Outcome.of_bind_eq_ok h
    cases h
    obtain ⟨hbound, hpairs⟩ := ih hrest
    have hnumber := ofRaw_number hl
    have hlater : ∀ x ∈ rest, l.number < x.number := by
      intro x hx
      have := hbound x hx
      omega
    refine ⟨?_, List.pairwise_cons.mpr ⟨hlater, hpairs⟩⟩
    intro x hx
    rcases List.mem_cons.mp hx with rfl | hx
    · exact Int.le_of_eq hnumber.symm
    · have := hlater x hx
      omega

theorem ofSource_numbers {source file : Text} {first : Int} {lines : List Line}
    (h : ofSource source file first = .ok lines) :
    lines.Pairwise fun l next => l.number < next.number := by
  rw [ofSource] at h
  obtain ⟨unit, -, h⟩ := Outcome.of_bind_eq_ok h
  exact (ofRaws_numbers h).2

end Line

namespace Source

theorem ofLines_runs {way : PropertySyntax} {lines : List Line} {src : Source}
    (h : ofLines way lines = .ok src) :
    Runs (lines.filter fun l => !l.blank) src.nodes [] := by
  obtain ⟨rest, hbuild⟩ := build_of_ofLines h
  obtain ⟨⟨taken, hruns, hnodes⟩, hrest⟩ :=
    build_runs (Nat.le_refl _) (allFilled_filled lines) hbuild
  obtain rfl : rest = [] := by
    cases rest with
    | nil => rfl
    | cons x rest => exact absurd (hrest x rfl) (Nat.not_lt_zero _)
  rw [List.reverse_nil, Statement.nodesOf_nil, List.nil_append] at hnodes
  rw [nodes, hnodes]
  exact hruns

/-- **The tree mirrors the lines, and no line is lost or taken twice.** In pre-order the nodes of a
parsed source stand at lines with increasing numbers, each indented by its depth. The lines that
are not blank are a row of runs: every node heads one of them, in that order, and takes along what
its kind allows; the other runs are headed by silent lines. -/
theorem nodes_of_parse {way : PropertySyntax} {source file : Text} {first : Int} {src : Source}
    (h : parse way source file first = .ok src) :
    ((src.nodes.map fun n => n.pos.line).Pairwise (· < ·) ∧
      ∀ n ∈ src.nodes, n.pos.indent = n.depth) ∧
    ∃ lines, Line.ofSource source file first = .ok lines ∧
      ∃ runs : List LineRun, (lines.filter fun l => !l.blank) = runs.flatMap LineRun.lines ∧
        LineRun.AllProper [] runs ∧ runs.filterMap LineRun.node = src.nodes := by
  rw [parse] at h
  obtain ⟨lines, hlines, h⟩ := Outcome.of_bind_eq_ok h
  obtain ⟨runs, hfilled, hproper, hnodes, hdepth⟩ := ofLines_runs h
  rw [List.append_nil] at hfilled
  refine ⟨⟨?_, hdepth⟩, lines, hlines, runs, hfilled, hproper, hnodes⟩
  have hsub := hproper.positions_sublist
  rw [hnodes, ← hfilled] at hsub
  have hnumbers : (((lines.filter fun l => !l.blank).map Line.position).map
      Position.line).Pairwise (· < ·) := by
    rw [List.map_map, List.pairwise_map]
    exact (Line.ofSource_numbers hlines).sublist List.filter_sublist
  have := hnumbers.sublist (hsub.map Position.line)
  rwa [List.map_map] at this

/-- A selector over two lines, a choice whose branches have a silent line between them, and a
comment with a line of its own. -/
theorem nodes_of_parse_mixed :
    ∃ src, parse .either "a,\nb\n  c: d\n@if x\n  e\n// f\n  g\n@else\n  h\n\n/* i\n    j\n" [] 1 =
        .ok src ∧
      src.nodes = [⟨0, ⟨[], 1, 0⟩, .rule 2⟩, ⟨1, ⟨[], 3, 1⟩, .plain⟩, ⟨0, ⟨[], 4, 0⟩, .plain⟩,
        ⟨1, ⟨[], 5, 1⟩, .rule 1⟩, ⟨0, ⟨[], 8, 0⟩, .plain⟩, ⟨1, ⟨[], 9, 1⟩, .rule 1⟩,
        ⟨0, ⟨[], 11, 0⟩, .comment⟩] ∧
      ((src.nodes.map fun n => n.pos.line).Pairwise (· < ·) ∧
        ∀ n ∈ src.nodes, n.pos.indent = n.depth) ∧
      ∃ lines, Line.ofSource
          "a,\nb\n  c: d\n@if x\n  e\n// f\n  g\n@else\n  h\n\n/* i\n    j\n" [] 1 = .ok lines ∧
        ∃ runs : List LineRun, (lines.filter fun l => !l.blank) = runs.flatMap LineRun.lines ∧
          LineRun.AllProper [] runs ∧ runs.filterMap LineRun.node = src.nodes := by
  refine ⟨_, rfl, rfl, ?_⟩
  exact @nodes_of_parse .either _ [] 1 _ rfl

end Source

end IndentedSass
