import IndentedSass.Source.Builder
import Mathlib.Data.List.Basic

/-!
# Blank lines

The builder walks over the lines of a source as they come. Blank ones are passed over in many
places: before a line is read, before it is asked whether something is nested beneath it, among the
lines of a comment or beneath a silent line, and between the lines of a selector. Here two walks are
compared, one over all lines and one over the lines with something on them (`Source.filled`). A
reader yields the same on both, and what it leaves on one is what it leaves on the other, but for
blank lines (`Source.leaving`). This holds of every reader (`Source.classify_filled`), and by
induction of whole levels of the tree (`Source.build_filled`).
-/

namespace IndentedSass.Source

/-- The lines with something on them. -/
abbrev filled (lines : List Line) : List Line := lines.filter fun l => !l.blank

/-- What a reader yields, with the blank lines left out of those that it leaves. -/
def leaving {α : Type} (r : Except Fault (α × List Line)) : Except Fault (α × List Line) :=
  r.map fun yielded => (yielded.1, filled yielded.2)

section Lines
variable {l : Line} {lines rest : List Line}

theorem filled_blank (h : l.blank = true) : filled (l :: rest) = filled rest :=
  List.filter_cons_of_neg (by simp [h])

theorem filled_cons (h : l.blank = false) : filled (l :: rest) = l :: filled rest :=
  List.filter_cons_of_pos (by simp [h])

theorem blank_of_mem_filled (h : l ∈ filled lines) : l.blank = false := by
  simpa using (List.mem_filter.1 h).2

theorem upcoming_cons (h : l.blank = false) : upcoming (l :: rest) = l :: rest := by
  rw [upcoming, List.dropWhile_cons, if_neg (by simp [h])]

theorem filled_upcoming (lines : List Line) : filled (upcoming lines) = filled lines := by
  induction lines with
  | nil => rfl
  | cons l rest ih =>
    cases hl : l.blank with
    | false => rw [upcoming_cons hl]
    | true => rw [filled_blank hl, ← ih, upcoming, List.dropWhile_cons_of_pos hl, upcoming]

theorem blank_of_upcoming (h : upcoming lines = l :: rest) : l.blank = false := by
  have hhead := List.head?_dropWhile_not Line.blank lines
  rw [← upcoming, h] at hhead
  exact hhead

/-- What comes next is the same with and without blank lines, since it is looked for beyond them. -/
theorem upcoming_filled (lines : List Line) :
    upcoming (filled lines) = filled (upcoming lines) := by
  rw [filled_upcoming]
  cases h : filled lines with
  | nil => rfl
  | cons l rest => exact upcoming_cons (blank_of_mem_filled (h ▸ List.mem_cons_self))

end Lines

/-! ## Single lines -/

section Readers
variable (l : Line) (rest : List Line) (before : Option Statement)

theorem head?_upcoming_filled : (upcoming (filled rest)).head? = (upcoming rest).head? := by
  rw [upcoming_filled]
  cases h : upcoming rest with
  | nil => rfl
  | cons next more => rw [filled_cons (blank_of_upcoming h)]; rfl

/-- Whether something is nested beneath a line does not depend on blank lines. -/
theorem isDeeper_filled : isDeeper l (filled rest) = isDeeper l rest := by
  rw [isDeeper, isDeeper, head?_upcoming_filled]

/-- What is nested beneath a line is taken with the blank lines dropped, and what is left differs by
blank lines only. -/
theorem nested_filled : nested l (filled rest) = ((nested l rest).1, filled (nested l rest).2) := by
  induction rest with
  | nil => rfl
  | cons next rest ih =>
    cases hnext : next.blank with
    | true => rw [filled_blank hnext, ih, nested, if_pos hnext]
    | false =>
      have hread : ¬next.blank = true := Bool.eq_false_iff.1 hnext
      rw [filled_cons hnext, nested, nested, if_neg hread, if_neg hread, ih]
      split
      · rfl
      · rw [filled_cons hnext]

theorem leaf_filled (what : Text) (s : Statement) :
    leaf l (filled rest) what s = leaving (leaf l rest what s) := by
  rw [leaf, leaf, isDeeper_filled]
  split <;> rfl

/-- The lines of a comment are among those that are nested beneath it. -/
theorem comment_filled : comment l (filled rest) = leaving (comment l rest) := by
  rw [comment, comment, nested_filled]
  dsimp only
  split <;> rfl

theorem otherwise_filled :
    otherwise l (filled rest) before = leaving (otherwise l rest before) := by
  rw [otherwise, otherwise]
  split
  · rfl
  · split
    · split <;> rfl
    · rfl

/-- A directive looks at the lines that follow only to see whether something is nested beneath
it. -/
theorem directive_filled :
    directive l (filled rest) before = leaving (directive l rest before) := by
  rw [directive, directive]
  split
  · rfl
  dsimp only
  -- the keywords one by one, in the order of the reader
  split
  · split
    · rfl
    · exact leaf_filled l rest _ _
  split
  · split <;> rfl
  split
  · split <;> rfl
  split
  · exact otherwise_filled l rest before
  split
  · split <;> rfl
  split
  · rw [nested_filled]
    rfl
  · rfl

theorem mixin_filled : mixin l (filled rest) = leaving (mixin l rest) := by
  rw [mixin, mixin]
  split
  · rfl
  · split
    · rfl
    · rename_i name raw _
      cases params name false (splitArgs raw) <;> rfl

theorem call_filled : call l (filled rest) = leaving (call l rest) := by
  rw [call, call]
  split
  · rfl
  · exact leaf_filled l rest _ _

theorem assign_filled : assign l (filled rest) = leaving (assign l rest) := by
  rw [assign, assign]
  split
  · rfl
  · exact leaf_filled l rest _ _

theorem property_filled (d : Header.Declaration) :
    property l (filled rest) d = leaving (property l rest d) := by
  rw [property, property]
  split <;> rfl

/-- Without a comma at its end, a line is the last of its selector. -/
theorem selectorLines_of_end (level : Nat) {text : Text}
    (h : ¬(selectorText text).getLast? = some Ascii.comma) :
    selectorLines level text rest = .ok ([selectors (selectorText text)], rest) := by
  cases rest <;> rw [selectorLines, if_neg h]

/-- A comma calls for the next line that is not blank. The induction is on the lines that follow. -/
theorem selectorLines_filled (level : Nat) (text : Text) :
    selectorLines level text (filled rest) = leaving (selectorLines level text rest) := by
  induction rest generalizing text with
  | nil =>
    show selectorLines level text [] = _
    rw [selectorLines]
    split <;> rfl
  | cons next rest ih =>
    by_cases hend : (selectorText text).getLast? = some Ascii.comma
    case neg =>
      rw [selectorLines_of_end _ level hend, selectorLines_of_end _ level hend]
      rfl
    cases hnext : next.blank with
    | true => rw [filled_blank hnext, ih, selectorLines, if_pos hend, if_pos hnext]
    | false =>
      have hread : ¬next.blank = true := Bool.eq_false_iff.1 hnext
      rw [filled_cons hnext, selectorLines, selectorLines, if_pos hend, if_pos hend, if_neg hread,
        if_neg hread, ih]
      split
      · cases selectorLines level next.text rest <;> rfl
      · rfl

theorem rule_filled : rule l (filled rest) = leaving (rule l rest) := by
  rw [rule, rule, selectorLines_filled]
  cases selectorLines l.indent l.text rest <;> rfl

/-- **A line is read alike with blank lines ahead and without.** -/
theorem classify_filled (way : PropertySyntax) :
    classify way l (filled rest) before = leaving (classify way l rest before) := by
  rw [classify, classify]
  split
  · exact comment_filled l rest
  · exact directive_filled l rest before
  · exact mixin_filled l rest
  · exact call_filled l rest
  · exact assign_filled l rest
  · exact assign_filled l rest
  · split
    · exact property_filled l rest _
    · exact rule_filled l rest

end Readers

/-! ## The tree -/

theorem locating_leaving {α : Type} (l : Line) (r : Except Fault (α × List Line)) :
    locating l (leaving r) = leaving (locating l r) := by
  cases r <;> rfl

/-- Steps that do the same on both walks do the same one after the other. -/
theorem leaving_bind {α β : Type} {r : Except Fault (α × List Line)}
    {f : α × List Line → Except Fault (β × List Line)}
    (h : ∀ a rest, f (a, filled rest) = leaving (f (a, rest))) :
    (leaving r >>= f) = leaving (r >>= f) := by
  cases r with
  | error fault => rfl
  | ok yielded => exact h yielded.1 yielded.2

/-- **A level of the tree is built alike with blank lines and without.** The two walks use up the
same fuel, since a blank line takes none. -/
theorem build_filled (way : PropertySyntax) (fuel level : Nat) (done : List Statement)
    (lines : List Line) :
    build way fuel level done (filled lines) = leaving (build way fuel level done lines) := by
  induction fuel generalizing level done lines with
  | zero => rfl
  | succ fuel ih =>
    rw [build, build, upcoming_filled]
    cases hup : upcoming lines with
    | nil => rfl
    | cons l rest =>
      have hl := blank_of_upcoming hup
      rw [filled_cons hl]
      dsimp only
      split
      · rw [leaving, Except.map, filled_cons hl]
      split
      · rfl
      rw [classify_filled, locating_leaving]
      refine leaving_bind fun shape rest' => ?_
      cases shape with
      | skipped => exact ih level done rest'
      | closed s => exact ih level (s :: done) rest'
      | opens make =>
        dsimp only
        rw [ih]
        exact leaving_bind fun body rest'' => ih level (make body :: done) rest''
      | further head more test =>
        dsimp only
        rw [ih, locating_leaving]
        exact leaving_bind fun body rest'' => ih level _ rest''

/-- The tree is built from the lines with something on them, but its position is that of the first
line. -/
theorem ofLines_eq_filled (way : PropertySyntax) (lines : List Line) :
    ofLines way lines = (build way (filled lines).length 0 [] (filled lines)).map fun built =>
      ⟨start lines, built.1⟩ := by
  rw [ofLines, build_filled, List.countP_eq_length_filter]
  cases build way (filled lines).length 0 [] lines <;> rfl

section Outcomes
variable {way : PropertySyntax} {lines : List Line}

/-- The body of a tree is built from the lines that are not blank. -/
theorem build_of_ofLines {src : Source} (h : ofLines way lines = .ok src) :
    ∃ rest, build way (filled lines).length 0 [] (filled lines) = .ok (src.body, rest) := by
  rw [ofLines_eq_filled] at h
  cases hbuild : build way (filled lines).length 0 [] (filled lines) with
  | error f =>
    rw [hbuild] at h
    cases h
  | ok built =>
    rw [hbuild] at h
    cases h
    exact ⟨built.2, rfl⟩

theorem build_of_ofLines_error {f : Fault} (h : ofLines way lines = .error f) :
    build way (filled lines).length 0 [] (filled lines) = .error f := by
  rw [ofLines_eq_filled] at h
  cases hbuild : build way (filled lines).length 0 [] (filled lines) with
  | error g =>
    rw [hbuild] at h
    cases h
    rfl
  | ok built =>
    rw [hbuild] at h
    cases h

end Outcomes

/-- **Blank lines are transparent.** With the blank lines and without them, lines have trees with
the same statements, all of them at the same positions, or the same fault. -/
theorem ofLines_transparent (way : PropertySyntax) (lines : List Line) :
    (ofLines way (filled lines)).map Source.body = (ofLines way lines).map Source.body := by
  have htwice : filled (filled lines) = filled lines := by
    simp only [filled, List.filter_filter, Bool.and_self]
  rw [ofLines_eq_filled, ofLines_eq_filled way lines, htwice]
  cases build way (filled lines).length 0 [] (filled lines) <;> rfl

end IndentedSass.Source
