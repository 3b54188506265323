import IndentedSass.Proofs.Nesting

/-!
# Well-formed trees

`Source.WellFormed` collects what every tree of a source can be relied on for, whatever stands in
the source: where mixins and properties stand, what has nothing beneath it, and which parts of a
statement are never empty. The clauses are checked in different places: on the text of a line, on
its indentation, on the line after it, on the statement before it. Three facts about single lines
cover them:

* `Reading.own_formed`: a line yields a statement whose own parts are in order;
* `Reading.own_closes`: a line that yields a leaf has no lines beneath it that are lost;
* `Reading.own_placed`: a mixin is not indented, and a property is.

The indentation of a statement is its depth in the tree, so the last of them says where in the tree
mixins and properties are.
-/

namespace IndentedSass

namespace Statement

/-! ## Depth and indentation -/

/-- What stands beneath a statement is one deeper. -/
theorem nodes_subset_of_mem_beneath {s t : Statement} (h : t ∈ s.beneath) (depth : Nat) :
    t.nodes (depth + 1) ⊆ s.nodes depth := by
  have hbody {n : TreeNode} {body : List Statement} (ht : t ∈ body) :
      t.nodes (depth + 1) ⊆ n :: nodesOf (depth + 1) body :=
    List.subset_cons_of_subset _ (nodes_subset_nodesOf ht _)
  cases s with
  | assign | call | imports | comment => cases h
  | choice head more =>
    obtain ⟨b, hb, ht⟩ := List.mem_flatMap.1 h
    rw [nodes, ← branchesNodes]
    refine List.Subset.trans ?_ (branchNodes_subset_branchesNodes hb depth)
    rw [branchNodes]
    exact hbody ht
  | rule | property | mixin | forLoop | whileLoop | directive =>
    rw [nodes]
    exact hbody h

end Statement

namespace Source

/-- What is in a tree at any depth has its nodes among those of the tree. -/
theorem Has.exists_depth {src : Source} {s : Statement} (h : src.Has s) :
    ∃ depth, s.nodes depth ⊆ src.nodes := by
  induction h with
  | top hs => exact ⟨0, Statement.nodes_subset_nodesOf hs 0⟩
  | beneath _ hs ih =>
    obtain ⟨depth, hdepth⟩ := ih
    exact ⟨depth + 1, List.Subset.trans (Statement.nodes_subset_of_mem_beneath hs depth) hdepth⟩

section Depth
variable {way : PropertySyntax} {lines : List Line} {src : Source}

/-- A statement is as deep in the tree as its line is indented. -/
theorem indent_eq_depth (h : ofLines way lines = .ok src) {s : Statement} {depth : Nat}
    (hs : s.nodes depth ⊆ src.nodes) : s.pos.indent = depth := by
  obtain ⟨runs, -, -, -, hdepth⟩ := ofLines_runs h
  obtain ⟨kind, hnode⟩ := s.exists_mem_nodes depth
  exact hdepth _ (hs hnode)

theorem indent_of_mem_body (h : ofLines way lines = .ok src) {s : Statement} (hs : s ∈ src.body) :
    s.pos.indent = 0 :=
  indent_eq_depth h (Statement.nodes_subset_nodesOf hs 0)

/-- What is beneath something is indented. -/
theorem indent_of_mem_beneath (h : ofLines way lines = .ok src) {s t : Statement} (hs : src.Has s)
    (ht : t ∈ s.beneath) : t.pos.indent ≠ 0 := by
  obtain ⟨depth, hdepth⟩ := hs.exists_depth
  have hnodes := List.Subset.trans (Statement.nodes_subset_of_mem_beneath ht depth) hdepth
  have hindent := indent_eq_depth h hnodes
  omega

end Depth
end Source

/-! ## What the parts of a line are -/

theorem Header.operand?_ne_nil {s rest : Text} (h : operand? s = some rest) : rest ≠ [] := by
  rw [operand?] at h
  split at h
  · cases h
  · split at h
    · cases h
    · cases h
      intro hdrop
      have := List.drop_eq_nil_iff.1 hdrop
      omega
  · rename_i hne _
    rw [← Option.some.inj h]
    exact hne

theorem Header.test?_ne_nil {s test : Text} (h : test? s = some test) : test ≠ [] := by
  obtain ⟨rest, -, hrest⟩ := Option.bind_eq_some_iff.1 h
  exact operand?_ne_nil hrest

namespace Source

/-- Parameters without a default come before those with one. -/
def RequiredFirst (ps : List Param) : Prop :=
  ps.Pairwise fun p later => later.fallback = none → p.fallback = none

/-- Once a parameter has a default, those after it have one. The induction is on the parameters. -/
theorem requiredFirst_of_params {mixin : Text} {optional : Bool} {raws : List Text}
    {ps : List Param} (h : params mixin optional raws = .ok ps) :
    RequiredFirst ps ∧ (optional = true → ∀ p ∈ ps, p.fallback ≠ none) := by
  induction raws generalizing optional ps with
  | nil =>
    cases h
    exact ⟨.nil, fun _ => List.forall_mem_nil _⟩
  | cons raw raws ih =>
    rw [params] at h
    split at h
    · cases h
    · rename_i name fallback _
      split at h
      · cases h
      · rename_i hallowed
        obtain ⟨later, hlater, h⟩ := Outcome.of_bind_eq_ok h
        cases h
        obtain ⟨hpairs, hrest⟩ := ih hlater
        by_cases hnone : fallback = none
        · refine ⟨List.pairwise_cons.2 ⟨fun _ _ _ => hnone, hpairs⟩, fun hoptional => ?_⟩
          rw [hoptional, hnone] at hallowed
          exact absurd rfl hallowed
        · have hsome : fallback.isSome = true := Option.isSome_iff_ne_none.2 hnone
          have hlast : ∀ p ∈ later, p.fallback ≠ none := hrest (by rw [hsome, Bool.or_true])
          exact ⟨List.pairwise_cons.2 ⟨fun p hp hp' => absurd hp' (hlast p hp), hpairs⟩,
            fun _ => List.forall_mem_cons.2 ⟨hnone, hlast⟩⟩

theorem commentLines_ne_nil (first : Text) (beneath : List Line) :
    commentLines first beneath ≠ [] := by
  intro h
  obtain ⟨-, hlast⟩ := List.append_eq_nil_iff.1 h
  rw [Option.toList_eq_nil_iff, Option.map_eq_none_iff, List.getLast?_eq_none_iff] at hlast
  split at hlast <;> cases hlast

theorem nil_not_mem_selectors (s : Text) : [] ∉ selectors s := by
  intro h
  obtain ⟨-, hne⟩ := List.mem_filter.1 h
  exact Bool.false_ne_true hne

/-- A rule has selectors, and none is empty. -/
theorem groups_of_selectorLines {level : Nat} {text : Text} {rest rest' : List Line}
    {groups : List (List Text)} (h : selectorLines level text rest = .ok (groups, rest')) :
    groups ≠ [] ∧ ∀ group ∈ groups, [] ∉ group := by
  have single (s : Text) : [selectors s] ≠ [] ∧ ∀ group ∈ [selectors s], [] ∉ group :=
    ⟨List.cons_ne_nil _ _, List.forall_mem_singleton.2 (nil_not_mem_selectors s)⟩
  induction rest generalizing text groups with
  | nil =>
    rw [selectorLines] at h
    split at h
    · cases h
    · cases h
      exact single _
  | cons next rest ih =>
    rw [selectorLines] at h
    split at h
    · split at h
      · exact ih h
      split at h
      · obtain ⟨⟨groups', rest''⟩, hnext, h⟩ := Outcome.of_bind_eq_ok h
        cases h
        exact ⟨List.cons_ne_nil _ _,
          List.forall_mem_cons.2 ⟨nil_not_mem_selectors _, (ih hnext).2⟩⟩
      · cases h
    · cases h
      exact single _

/-- As long as a choice is open, all its branches have tests. -/
theorem tests_of_not_isFinished {more : List (Branch Statement)} (hopen : isFinished more = false)
    (h : ∀ b ∈ more.dropLast, b.test ≠ []) : ∀ b ∈ more, b.test ≠ [] := by
  rcases List.eq_nil_or_concat more with rfl | ⟨init, last, rfl⟩
  · exact List.forall_mem_nil _
  · rw [List.concat_eq_append] at hopen h ⊢
    rw [List.dropLast_concat] at h
    have hlast : last.test ≠ [] := by simpa [isFinished] using hopen
    intro b hb
    rcases List.mem_append.1 hb with hb | hb
    · exact h b hb
    · rwa [List.mem_singleton.1 hb]

end Source

/-! ## Single statements -/

namespace Statement

/-- The parts of a statement are in order, whatever stands beneath it. -/
def Formed : Statement → Prop
  | rule _ groups _ => groups ≠ [] ∧ ∀ group ∈ groups, [] ∉ group
  | mixin _ _ ps _ => Source.RequiredFirst ps
  | choice head more => head.test ≠ [] ∧ ∀ b ∈ more.dropLast, b.test ≠ []
  | comment _ texts => texts ≠ []
  | _ => True

/-- Statements that can have nothing beneath them. -/
def IsLeaf : Statement → Prop
  | assign .. | call .. | imports .. | comment .. => True
  | _ => False

/-- What becomes of the lines beneath the line of a leaf: a comment holds their texts, and elsewhere
there are none. -/
def Keeps (l : Line) (beneath : List Line) : Statement → Prop
  | comment _ texts => ∃ first, l.text = Ascii.slash :: Ascii.asterisk :: first ∧
      texts = Source.commentLines first beneath
  | _ => beneath = []

/-- Nothing stands beneath a statement, and no line beneath its line is lost. -/
def Closes (lines : List Line) (s : Statement) : Prop :=
  s.beneath = [] ∧ ∃ l beneath following, l :: (beneath ++ following) <:+ lines ∧
    l.position = s.pos ∧ Source.Beneath l beneath following ∧ s.Keeps l beneath

/-- Whether a statement may be indented as it is. -/
def Placed : Statement → Prop
  | mixin pos _ _ _ => pos.indent = 0
  | property pos _ _ _ _ => pos.indent ≠ 0
  | _ => True

end Statement

namespace Source

section Readings
variable {way : PropertySyntax} {l : Line} {rest rest' : List Line} {before : Option Statement}
  {shape : Shape}

/-- What a line reads as is formed well, if what came before it was: only a branch is added to
that. -/
theorem Reading.own_formed (hbefore : ∀ s ∈ before, s.Formed)
    (h : Reading way l rest before shape rest') : shape.Own Statement.Formed := by
  cases h with
  | silent | imports | call | assign => trivial
  | count | repeated | directive | property => exact fun _ => trivial
  | comment => exact commentLines_ne_nil _ _
  | test htest => exact fun _ => ⟨Header.test?_ne_nil htest, List.forall_mem_nil _⟩
  | @further test head more _ hchoice hopen =>
    intro pos body
    have hformed : (Statement.choice head more).Formed := hbefore _ hchoice
    refine ⟨hformed.1, ?_⟩
    -- the new branch is the last, so all branches that were there need a test now
    rw [List.dropLast_concat]
    exact tests_of_not_isFinished hopen hformed.2
  | mixin _ _ hparams => exact fun _ => (requiredFirst_of_params hparams).1
  | rule hgroups => exact fun _ => groups_of_selectorLines hgroups

/-- A leaf ends where its lines end: nothing is nested beneath them. -/
theorem Reading.own_closes {lines : List Line} (hlines : l :: rest <:+ filled lines)
    (h : Reading way l rest before shape rest') :
    shape.Own fun s => s.IsLeaf → s.Closes (filled lines) := by
  cases h with
  | silent => trivial
  | imports _ _ hlow => exact fun _ => ⟨rfl, l, [], rest, hlines, rfl, hlow, rfl⟩
  | call _ hlow | assign _ hlow => exact fun _ => ⟨rfl, l, [], rest, hlines, rfl, hlow, rfl⟩
  | comment hfirst =>
    have hrest : AllFilled rest := fun x hx =>
      blank_of_mem_filled (hlines.subset (List.mem_cons_of_mem l hx))
    obtain ⟨happend, hbeneath⟩ := beneath_nested l hrest
    rw [happend] at hlines
    exact fun _ => ⟨rfl, l, _, _, hlines, rfl, hbeneath, _, hfirst, rfl⟩
  | count | test | repeated | directive | mixin | property | rule => exact fun _ => False.elim
  | further => exact fun _ _ => False.elim

/-- Mixins stand at the outermost level, and declarations do not. -/
theorem Reading.own_placed (h : Reading way l rest before shape rest') :
    shape.Own Statement.Placed := by
  cases h with
  | silent | comment | imports | call | assign => trivial
  | count | test | repeated | directive | rule => exact fun _ => trivial
  | further => exact fun _ _ => trivial
  | mixin htop => exact fun _ => Int.natCast_eq_zero.2 htop
  | property hinner => exact fun _ => Int.natCast_ne_zero.2 hinner

end Readings

/-! ## Whole trees -/

/-- What a tree can be relied on for; `lines` are those of its source, the blank ones left out. -/
structure WellFormed (lines : List Line) (src : Source) : Prop where
  /-- Mixins are defined at the outermost level only. -/
  mixin_outermost {pos : Position} {name : Text} {ps : List Param} {body : List Statement}
    {s : Statement} (hs : src.Has s) : .mixin pos name ps body ∉ s.beneath
  /-- Properties are never at the outermost level. -/
  property_nested {pos : Position} {name value : Text} {script : Bool} {body : List Statement} :
    .property pos name value script body ∉ src.body
  leaf_closes {s : Statement} (hs : src.Has s) (hleaf : s.IsLeaf) : s.Closes lines
  formed {s : Statement} (hs : src.Has s) : s.Formed

/-- **The trees of all sources are well-formed.** -/
theorem wellFormed_of_parse {way : PropertySyntax} {text file : Text} {first : Int} {src : Source}
    (h : parse way text file first = .ok src) :
    ∃ lines, Line.ofSource text file first = .ok lines ∧
      src.WellFormed (lines.filter fun l => !l.blank) := by
  rw [parse] at h
  obtain ⟨lines, hlines, h⟩ := Outcome.of_bind_eq_ok h
  have hplaced {s : Statement} (hs : src.Has s) : s.Placed :=
    every_of_ofLines (fun _ _ => Reading.own_placed) h hs
  refine ⟨lines, hlines, ?_⟩
  constructor
  case mixin_outermost =>
    intro pos name ps body s hs hmixin
    exact indent_of_mem_beneath h hs hmixin (hplaced (hs.beneath hmixin))
  case property_nested =>
    intro pos name value script body hproperty
    exact hplaced (.top hproperty) (indent_of_mem_body h hproperty)
  case leaf_closes => exact every_of_ofLines (fun hl _ => Reading.own_closes hl) h
  case formed => exact every_of_ofLines (fun _ => Reading.own_formed) h

/-- A mixin with a default, a choice of three branches, a selector over two lines, and each kind of
leaf, the comment with a line of its own beneath it. -/
theorem wellFormed_of_parse_mixed :
    ∃ src, parse .either
        "=m($a, $b: 1)\n +n\n@if x\n $d: 2\n@else if y\n @import k\n@else\n e,\n f\n  g: h\n/* i\n j"
        [] 1 = .ok src ∧
      src.body = [
        .mixin ⟨[], 1, 0⟩ "m" [⟨"a", none⟩, ⟨"b", some "1"⟩] [.call ⟨[], 2, 1⟩ "n" []],
        .choice ⟨⟨[], 3, 0⟩, "x", [.assign ⟨[], 4, 1⟩ "d" "2" false]⟩
          [⟨⟨[], 5, 0⟩, "y", [.imports ⟨[], 6, 1⟩ "k"]⟩,
            ⟨⟨[], 7, 0⟩, [], [.rule ⟨[], 8, 1⟩ [["e"], ["f"]]
              [.property ⟨[], 10, 2⟩ "g" "h" false []]]⟩],
        .comment ⟨[], 11, 0⟩ ["i", "j"]] ∧
      ∃ lines, Line.ofSource
          "=m($a, $b: 1)\n +n\n@if x\n $d: 2\n@else if y\n @import k\n@else\n e,\n f\n  g: h\n/* i\n j"
          [] 1 = .ok lines ∧ src.WellFormed (lines.filter fun l => !l.blank) := by
  refine ⟨_, rfl, rfl, ?_⟩
  exact @wellFormed_of_parse .either _ [] 1 _ rfl

end Source

end IndentedSass
