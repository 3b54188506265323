import IndentedSass.Proofs.SourceTree

/-!
# Statements anywhere in a tree

`Source.Has` finds the statements of a source at any depth. What the builder makes of a line is said
once, for all kinds of lines, by `Source.Reading`; nothing else gets into a tree. A fact about every
statement of every tree is then a fact about single lines, read where they stand
(`every_of_ofLines`) or wherever they stand (`every_of_parse`).
-/

namespace IndentedSass

namespace Statement

/-- The statements right beneath a statement, those of a choice branch by branch. -/
def beneath : Statement → List Statement
  | rule _ _ body => body
  | property _ _ _ _ body => body
  | mixin _ _ _ body => body
  | forLoop _ _ _ _ _ _ body => body
  | choice head more => (head :: more).flatMap Branch.body
  | whileLoop _ _ _ body => body
  | directive _ _ body => body
  | assign .. | call .. | imports .. | comment .. => []

/-- `P` holds of a statement and of all statements beneath it. -/
inductive Every (P : Statement → Prop) : Statement → Prop
  | intro {s : Statement} (own : P s) (rest : ∀ t ∈ s.beneath, Every P t) : Every P s

theorem Every.own {P : Statement → Prop} {s : Statement} (h : s.Every P) : P s := by
  obtain ⟨own, -⟩ := h
  exact own

/-- A further branch brings its own statements and no others. -/
theorem mem_beneath_further {head b : Branch Statement} {more : List (Branch Statement)}
    {t : Statement} : t ∈ (choice head (more ++ [b])).beneath ↔
      t ∈ (choice head more).beneath ∨ t ∈ b.body := by
  simp only [beneath, List.flatMap_cons, List.flatMap_append, List.flatMap_nil, List.append_nil,
    List.mem_append]
  tauto

end Statement

namespace Source
open Ascii

/-- A statement stands in a source, at any depth. -/
inductive Has (src : Source) : Statement → Prop
  | top {s : Statement} (h : s ∈ src.body) : src.Has s
  | beneath {s t : Statement} (ht : src.Has t) (h : s ∈ t.beneath) : src.Has s

theorem Has.every {src : Source} {P : Statement → Prop} (hsrc : ∀ s ∈ src.body, s.Every P)
    {s : Statement} (h : src.Has s) : s.Every P := by
  induction h with
  | top hs => exact hsrc _ hs
  | beneath _ hs ih =>
    obtain ⟨-, hrest⟩ := ih
    exact hrest _ hs

/-! ## What a line can be -/

/-- What the line `l` turns into, before the lines `rest` and after the statement `before`, and the
lines that are left. -/
inductive Reading (way : PropertySyntax) (l : Line) (rest : List Line) (before : Option Statement) :
    Shape → List Line → Prop
  | silent (h : IsSilent l) : Reading way l rest before .skipped (nested l rest).2
  | comment {first : Text} (h : l.text = slash :: asterisk :: first) :
    Reading way l rest before
      (.closed (.comment l.position (commentLines first (nested l rest).1))) (nested l rest).2
  | imports {word after : Text} (h : Header.keyword? l.text = some (word, after))
    (hne : after.trim ≠ []) (hlow : Beneath l [] rest) :
    Reading way l rest before (.closed (.imports l.position (Text.dropEnd ";" after.trim))) rest
  | count {c : Header.Count} (h : Header.count? l.text = some c) :
    Reading way l rest before
      (.opens (.forLoop l.position c.var c.first c.bound c.inclusive c.step)) rest
  | test {test : Text} (h : Header.test? l.text = some test) :
    Reading way l rest before (.opens fun body => .choice ⟨l.position, test, body⟩ []) rest
  | further {test : Text} {head : Branch Statement} {more : List (Branch Statement)}
    (h : Header.otherwise? l.text = some test) (hbefore : before = some (.choice head more))
    (hopen : isFinished more = false) : Reading way l rest before (.further head more test) rest
  | repeated {test : Text} {runsFirst : Bool} (h : Header.repeat? l.text = some (test, runsFirst)) :
    Reading way l rest before (.opens (.whileLoop l.position test runsFirst)) rest
  | directive {word after : Text} (h : Header.keyword? l.text = some (word, after)) :
    Reading way l rest before
      (.opens (.directive l.position (Text.dropEnd "\x7b" l.text).trim)) rest
  | mixin {name raw : Text} {ps : List Param} (htop : l.indent = 0)
    (h : Header.signature? (l.text.drop 1) = some (name, raw))
    (hparams : params name false (splitArgs raw) = .ok ps) :
    Reading way l rest before (.opens (.mixin l.position name ps)) rest
  | call {name raw : Text} (h : Header.signature? (l.text.drop 1) = some (name, raw))
    (hlow : Beneath l [] rest) :
    Reading way l rest before (.closed (.call l.position name (splitArgs raw))) rest
  | assign {a : Header.Assignment} (h : Header.assignment? l.text = some a)
    (hlow : Beneath l [] rest) :
    Reading way l rest before (.closed (.assign l.position a.name (assigned a.expr).1
      (a.optional || (assigned a.expr).2))) rest
  | property {d : Header.Declaration} (hinner : l.indent ≠ 0) (h : way.read? l = some d) :
    Reading way l rest before (.opens (.property l.position d.name d.value.trim
      (d.isScript || Header.referencesVariable d.value.trim))) rest
  | rule {groups : List (List Text)} {rest' : List Line}
    (h : selectorLines l.indent l.text rest = .ok (groups, rest')) :
    Reading way l rest before (.opens (.rule l.position groups)) rest'

section Readers
variable {way : PropertySyntax} {l : Line} {rest rest' : List Line} {before : Option Statement}
  {shape : Shape}

theorem beneath_nil_of_isDeeper (hrest : AllFilled rest) (h : isDeeper l rest = false) :
    Beneath l [] rest := by
  refine ⟨List.forall_mem_nil _, fun x hx => ?_⟩
  obtain ⟨more, rfl⟩ := List.head?_eq_some_iff.1 hx
  rw [isDeeper, upcoming_cons (hrest x List.mem_cons_self)] at h
  simpa using h

theorem of_leaf (hrest : AllFilled rest) {what : Text} {s : Statement}
    (h : leaf l rest what s = .ok (shape, rest')) :
    shape = .closed s ∧ rest' = rest ∧ Beneath l [] rest := by
  rw [leaf] at h
  split at h
  · cases h
  · rename_i hdeeper
    cases h
    exact ⟨rfl, rfl, beneath_nil_of_isDeeper hrest (Bool.eq_false_iff.2 hdeeper)⟩

theorem reading_of_comment (h : comment l rest = .ok (shape, rest')) :
    Reading way l rest before shape rest' := by
  rw [Source.comment] at h
  dsimp only at h
  split at h
  · rename_i s hs
    cases h
    exact .silent (.inl ⟨s, hs⟩)
  · rename_i first hfirst
    cases h
    exact .comment hfirst
  · cases h

theorem reading_of_otherwise (h : otherwise l rest before = .ok (shape, rest')) :
    Reading way l rest before shape rest' := by
  rw [otherwise] at h
  split at h
  · cases h
  · rename_i test htest
    split at h
    · split at h
      · cases h
      · rename_i hopen
        cases h
        exact .further htest rfl (Bool.not_eq_true _ ▸ hopen)
    · cases h

theorem reading_of_directive (hrest : AllFilled rest)
    (h : directive l rest before = .ok (shape, rest')) :
    Reading way l rest before shape rest' := by
  rw [Source.directive] at h
  split at h
  · cases h
  · rename_i word after hword
    dsimp only at h
    -- the keywords one by one, in the order of the reader
    split at h
    · split at h
      · cases h
      · rename_i hne
        obtain ⟨rfl, rfl, hlow⟩ := of_leaf hrest h
        exact .imports hword (by simpa using hne) hlow
    split at h
    · split at h
      · cases h
      · rename_i c hc
        cases h
        exact .count hc
    split at h
    · split at h
      · cases h
      · rename_i test htest
        cases h
        exact .test htest
    split at h
    · exact reading_of_otherwise h
    split at h
    · split at h
      · cases h
      · rename_i htest
        cases h
        exact .repeated htest
    split at h
    · rename_i hdebug
      cases h
      exact .silent (.inr ⟨word, after, hword, hdebug⟩)
    · cases h
      exact .directive hword

theorem reading_of_mixin (h : mixin l rest = .ok (shape, rest')) :
    Reading way l rest before shape rest' := by
  rw [Source.mixin] at h
  split at h
  · cases h
  · rename_i htop
    split at h
    · cases h
    · rename_i hname
      obtain ⟨ps, hps, h⟩ := Outcome.of_bind_eq_ok h
      cases h
      exact .mixin (not_not.1 htop) hname hps

theorem reading_of_call (hrest : AllFilled rest) (h : call l rest = .ok (shape, rest')) :
    Reading way l rest before shape rest' := by
  rw [Source.call] at h
  split at h
  · cases h
  · rename_i hname
    obtain ⟨rfl, rfl, hlow⟩ := of_leaf hrest h
    exact .call hname hlow

theorem reading_of_assign (hrest : AllFilled rest) (h : assign l rest = .ok (shape, rest')) :
    Reading way l rest before shape rest' := by
  rw [Source.assign] at h
  split at h
  · cases h
  · rename_i a ha
    obtain ⟨rfl, rfl, hlow⟩ := of_leaf hrest h
    exact .assign (Option.filter_eq_some_iff.1 ha).1 hlow

/-- **Whatever a line turns into is listed.** -/
theorem reading_of_classify (hrest : AllFilled rest)
    (h : classify way l rest before = .ok (shape, rest')) :
    Reading way l rest before shape rest' := by
  rw [classify] at h
  split at h
  · exact reading_of_comment h
  · exact reading_of_directive hrest h
  · exact reading_of_mixin h
  · exact reading_of_call hrest h
  · exact reading_of_assign hrest h
  · exact reading_of_assign hrest h
  · split at h
    · rename_i d hd
      rw [Source.property] at h
      split at h
      · cases h
      · rename_i hinner
        cases h
        exact .property hinner hd
    · rw [Source.rule] at h
      obtain ⟨⟨groups, rest''⟩, hgroups, h⟩ := Outcome.of_bind_eq_ok h
      cases h
      exact .rule hgroups

end Readers

/-! ## From lines to trees -/

/-- `P` holds of the statement that a line turns into, whatever comes to stand beneath it. -/
def Shape.Own (P : Statement → Prop) : Shape → Prop
  | .skipped => True
  | .closed s => P s
  | .opens make => ∀ body, P (make body)
  | .further head more test => ∀ pos body, P (.choice head (more ++ [⟨pos, test, body⟩]))

/-- Nothing stands beneath a closed statement, and its block beneath an open one. -/
def Shape.Nests : Shape → Prop
  | .closed s => s.beneath = []
  | .opens make => ∀ body, (make body).beneath = body
  | .skipped | .further .. => True

theorem Reading.nests {way : PropertySyntax} {l : Line} {rest rest' : List Line}
    {before : Option Statement} {shape : Shape} (h : Reading way l rest before shape rest') :
    shape.Nests := by
  cases h with
  | silent | further => trivial
  | comment | imports | call | assign => rfl
  | count | repeated | directive | mixin | property | rule => exact fun _ => rfl
  | test => exact fun body => List.append_nil body

/-- The induction is on the fuel; `done` holds what came before on the same level, and a further
branch still adds to the last of it. The lines of a level are always an end of all lines, so `P` may
speak of where a line stands. -/
theorem build_every {way : PropertySyntax} {P : Statement → Prop} {all : List Line}
    (hall : AllFilled all)
    (hP : ∀ {l rest before shape rest'}, l :: rest <:+ all → (∀ s ∈ before, P s) →
      Reading way l rest before shape rest' → shape.Own P)
    {fuel level : Nat} {done body : List Statement} {lines rest : List Line}
    (hlines : lines <:+ all) (hdone : ∀ t ∈ done, t.Every P)
    (h : build way fuel level done lines = .ok (body, rest)) :
    (∀ t ∈ body, t.Every P) ∧ rest <:+ all := by
  induction fuel generalizing level done body lines rest with
  | zero =>
    cases h
    exact ⟨by simpa using hdone, hlines⟩
  | succ fuel ih =>
    cases lines with
    | nil =>
      cases h
      exact ⟨by simpa using hdone, hlines⟩
    | cons l lines =>
      obtain ⟨hl, hrest⟩ : l.blank = false ∧ AllFilled lines :=
        List.forall_mem_cons.1 fun x hx => hall x (hlines.subset hx)
      rw [build, upcoming_cons hl] at h
      dsimp only at h
      split at h
      · cases h
        exact ⟨by simpa using hdone, hlines⟩
      split at h
      · cases h
      · obtain ⟨⟨shape, lines'⟩, hshape, h⟩ := Outcome.of_bind_eq_ok h
        have hclass := locating_eq_ok hshape
        have hlines' : lines' <:+ all := by
          obtain ⟨more, rfl, -⟩ := classify_takes hrest hclass
          exact (List.suffix_append (l :: more) lines').trans hlines
        have reading := reading_of_classify hrest hclass
        have hbefore : ∀ s ∈ done.head?, P s := fun s hs => (hdone s (List.mem_of_mem_head? hs)).own
        have own := hP hlines hbefore reading
        have nests := reading.nests
        cases shape with
        | skipped => exact ih hlines' hdone h
        | closed s =>
          have hs : s.Every P := ⟨own, by rw [show s.beneath = [] from nests]; simp⟩
          exact ih hlines' (List.forall_mem_cons.2 ⟨hs, hdone⟩) h
        | opens make =>
          obtain ⟨⟨inner, lines''⟩, hinner, h⟩ := Outcome.of_bind_eq_ok h
          obtain ⟨hbody, hlines''⟩ := ih hlines' (List.forall_mem_nil _) hinner
          have hmake : (make inner).Every P := ⟨own inner, by rwa [nests inner]⟩
          exact ih hlines'' (List.forall_mem_cons.2 ⟨hmake, hdone⟩) h
        | further head more test =>
          obtain ⟨done, rfl⟩ : ∃ tail, done = .choice head more :: tail := by
            cases reading with
            | further _ hbefore _ =>
              cases done with
              | nil => cases hbefore
              | cons s tail => exact ⟨tail, by rw [Option.some.inj hbefore]⟩
          obtain ⟨⟨inner, lines''⟩, hinner, h⟩ := Outcome.of_bind_eq_ok h
          obtain ⟨hbody, hlines''⟩ := ih hlines' (List.forall_mem_nil _) (locating_eq_ok hinner)
          obtain ⟨⟨-, hbranches⟩, hdone⟩ := List.forall_mem_cons.1 hdone
          refine ih hlines'' (List.forall_mem_cons.2 ⟨⟨own _ _, fun t ht => ?_⟩, hdone⟩) h
          rcases Statement.mem_beneath_further.1 ht with ht | ht
          · exact hbranches t ht
          · exact hbody t ht

/-- **What holds of the statement of every line, where it stands, holds throughout every tree.** A
line may rely on it for the statement before. -/
theorem every_of_ofLines {way : PropertySyntax} {P : Statement → Prop} {lines : List Line}
    (hP : ∀ {l rest before shape rest'}, l :: rest <:+ lines.filter (fun l => !l.blank) →
      (∀ s ∈ before, P s) → Reading way l rest before shape rest' → shape.Own P)
    {src : Source} (h : ofLines way lines = .ok src) {s : Statement} (hs : src.Has s) : P s := by
  obtain ⟨rest, hbuild⟩ := build_of_ofLines h
  have hbody := build_every (allFilled_filled lines) hP (List.suffix_refl _) (List.forall_mem_nil _)
    hbuild
  exact (hs.every hbody.1).own

/-- What holds of the statement of every line holds throughout every tree. -/
theorem every_of_parse {way : PropertySyntax} {P : Statement → Prop}
    (hP : ∀ {l rest before shape rest'}, Reading way l rest before shape rest' → shape.Own P)
    {text file : Text} {first : Int} {src : Source} (h : parse way text file first = .ok src)
    {s : Statement} (hs : src.Has s) : P s := by
  rw [parse] at h
  obtain ⟨lines, -, h⟩ := Outcome.of_bind_eq_ok h
  exact every_of_ofLines (fun _ _ => hP) h hs

end Source

end IndentedSass
