import IndentedSass.Proofs.BareFaults
import IndentedSass.Proofs.SourceTree
import IndentedSass.Proofs.WhiteSpace
import Mathlib.Logic.Relation

/-!
# Where in a text

A document is a text with the name of its file and the number of its first line. This module says
which positions belong to lines of a document that are not blank (`Document.HasLine`), and at which
line a document is refused (`Document.RefusedAt`): the first one whose indentation cannot be read,
or the first one that cannot stand where it stands. It shows that

* the nodes of a tree stand at lines of its document (`hasLine_of_parse`);
* a document that has no tree is refused at a line of it, and the fault names that line
  (`refusedAt_of_parse`).
-/

namespace IndentedSass

/-- A text, the name of its file and the number of its first line. -/
structure Document where
  file : Text
  text : Text
  first : Int

namespace Line

/-- A raw line with something on it besides white space at its ends. -/
def IsFilled (raw : Text) : Prop := (raw.trimEndWhile isTrailing).dropWhile isIndent ≠ []

end Line

namespace Source

/-- The builder at work: the level it is on, the statements it has on that level, the last one
first, and the lines ahead. -/
structure Spot where
  level : Nat
  done : List Statement
  ahead : List Line

/-- How the builder gets from one line to another: past a line that it has read, to what is nested
beneath it, and past all of that. -/
inductive Spot.Next (way : PropertySyntax) : Spot → Spot → Prop
  | skipped {l rest done rest'} (h : classify way l rest done.head? = .ok (.skipped, rest')) :
    Next way ⟨l.indent, done, l :: rest⟩ ⟨l.indent, done, rest'⟩
  | closed {l rest done s rest'} (h : classify way l rest done.head? = .ok (.closed s, rest')) :
    Next way ⟨l.indent, done, l :: rest⟩ ⟨l.indent, s :: done, rest'⟩
  | inside {l rest done make rest'}
    (h : classify way l rest done.head? = .ok (.opens make, rest')) :
    Next way ⟨l.indent, done, l :: rest⟩ ⟨l.indent + 1, [], rest'⟩
  | past {l rest done make rest' fuel body rest''}
    (h : classify way l rest done.head? = .ok (.opens make, rest'))
    (hbody : build way fuel (l.indent + 1) [] rest' = .ok (body, rest'')) :
    Next way ⟨l.indent, done, l :: rest⟩ ⟨l.indent, make body :: done, rest''⟩
  | insideBranch {l rest done head more test rest'}
    (h : classify way l rest done.head? = .ok (.further head more test, rest')) :
    Next way ⟨l.indent, done, l :: rest⟩ ⟨l.indent + 1, [], rest'⟩
  | pastBranch {l rest done head more test rest' fuel body rest''}
    (h : classify way l rest done.head? = .ok (.further head more test, rest'))
    (hbody : build way fuel (l.indent + 1) [] rest' = .ok (body, rest'')) :
    Next way ⟨l.indent, done, l :: rest⟩
      ⟨l.indent, .choice head (more ++ [⟨l.position, test, body⟩]) :: done.tail, rest''⟩

/-- The line ahead is indented too far, or it is none of the things that a line can be. -/
inductive Spot.Stuck (way : PropertySyntax) : Spot → Line → Prop
  | tooDeep {level done l rest} (h : level < l.indent) : Stuck way ⟨level, done, l :: rest⟩ l
  | unread {l done rest f} (h : classify way l rest done.head? = .error f) :
    Stuck way ⟨l.indent, done, l :: rest⟩ l

end Source

namespace Document

/-- The lines of a document before their indentation is read. -/
def raws (doc : Document) : List Text := Line.raws doc.text

/-- The number of the first line. -/
def start (doc : Document) : Int := Line.firstNumber doc.first

/-- The position of the line after so many lines, as far as it is known before its indentation is
read. -/
def lineAfter (doc : Document) (before : List Text) : Position :=
  ⟨doc.file, doc.start + before.length, 0⟩

/-- The position names a line of the document that is not blank. -/
def HasLine (doc : Document) (pos : Position) : Prop :=
  pos.file = doc.file ∧ ∃ before raw after, doc.raws = before ++ raw :: after ∧
    Line.IsFilled raw ∧ pos.line = doc.start + before.length

/-- The line at which a document is refused. -/
inductive RefusedAt (way : PropertySyntax) (doc : Document) : Position → Prop
  /-- The first indented line mixes tabs and spaces. -/
  | mixed {before raw after} (hraws : doc.raws = before ++ raw :: after)
    (hbefore : ∀ s ∈ before, Line.Indentation.shows s = false)
    (hshows : Line.Indentation.shows raw = true) (hunit : Line.Indentation.ofLine? raw = none) :
    RefusedAt way doc (doc.lineAfter before)
  /-- The first line that is not indented by whole units. -/
  | uneven {unit before raw after lines f} (hraws : doc.raws = before ++ raw :: after)
    (hunit : Line.Indentation.detect doc.file doc.start doc.raws = .ok unit)
    (hbefore : Line.ofRaws unit doc.file doc.start before = .ok lines)
    (hraw : Line.ofRaw unit doc.file (doc.start + before.length) raw = .error f) :
    RefusedAt way doc (doc.lineAfter before)
  /-- The first line at which the builder is stuck. -/
  | stuck {lines spot l} (hlines : Line.ofSource doc.text doc.file doc.first = .ok lines)
    (hreach : Relation.ReflTransGen (Source.Spot.Next way)
      ⟨0, [], lines.filter fun l => !l.blank⟩ spot)
    (hstuck : spot.Stuck way l) : RefusedAt way doc l.position

end Document

/-! ## Blank lines -/

namespace Text

theorem isBlankText_of_forall {s : Text} (h : ∀ c ∈ s, isSpaceByte c = true) :
    s.isBlankText = true := by
  rw [isBlankText, trim, dropSpaces_eq_nil h]
  rfl

end Text

namespace Line

theorem isSpaceByte_of_isIndent {c : UInt8} (h : isIndent c = true) :
    Text.isSpaceByte c = true := by
  rw [isIndent, Bool.or_eq_true] at h
  simp only [Text.isSpaceByte, Ascii.isBlank, Bool.or_eq_true]
  tauto

theorem isSpaceByte_of_isTrailing {c : UInt8} (h : isTrailing c = true) :
    Text.isSpaceByte c = true := by
  simp only [isTrailing, Bool.or_eq_true] at h
  simp only [Text.isSpaceByte, Ascii.isBlank, Bool.or_eq_true]
  tauto

/-- A line on which there is nothing is white space throughout. -/
theorem isFilled_of_shows {raw : Text} (h : Indentation.shows raw = true) : IsFilled raw := by
  intro hempty
  have hindent : ∀ c ∈ raw.trimEndWhile isTrailing, isIndent c = true := by
    rw [List.dropWhile_eq_nil_iff] at hempty
    exact hempty
  have hspace : ∀ c ∈ raw, Text.isSpaceByte c = true := by
    intro c hc
    rw [← List.mem_reverse, ← List.takeWhile_append_dropWhile (p := isTrailing) (l := raw.reverse)]
      at hc
    rcases List.mem_append.mp hc with hc | hc
    · exact isSpaceByte_of_isTrailing (List.mem_takeWhile_imp hc)
    · exact isSpaceByte_of_isIndent (hindent c (List.mem_reverse.mpr hc))
  rw [Indentation.shows, Text.isBlankText_of_forall hspace] at h
  cases h

/-! ## Reading the lines -/

/-- What a line keeps of its raw line. -/
theorem ofRaw_eq_ok {unit : Indentation} {file raw : Text} {number : Int} {l : Line}
    (h : ofRaw unit file number raw = .ok l) :
    l.file = file ∧ l.number = number ∧ (l.blank = false → IsFilled raw) := by
  rw [ofRaw] at h
  split at h
  · cases h
    exact ⟨rfl, rfl, fun hfilled => by cases hfilled⟩
  · rename_i hfilled
    split at h
    · cases h
      exact ⟨rfl, rfl, fun _ hempty => hfilled (List.isEmpty_iff.mpr hempty)⟩
    · cases h

/-- A raw line is refused only if there is something on it, and the fault has its number. -/
theorem ofRaw_eq_error {unit : Indentation} {file raw : Text} {number : Int} {f : Fault}
    (h : ofRaw unit file number raw = .error f) :
    IsFilled raw ∧ f.pos? = some ⟨file, number, 0⟩ := by
  rw [ofRaw] at h
  split at h
  · cases h
  · rename_i hfilled
    split at h
    · cases h
    · rename_i g hlevel
      cases h
      refine ⟨fun hempty => hfilled (List.isEmpty_iff.mpr hempty), ?_⟩
      have hbare : g.IsBare := by
        rw [Indentation.level] at hlevel
        split at hlevel
        · cases hlevel
          rfl
        · split at hlevel
          · cases hlevel
            rfl
          · cases hlevel
      rw [hbare.pos?_locate]

theorem add_length_cons (number : Int) (raw : Text) (before : List Text) :
    number + ((raw :: before).length : Int) = number + 1 + before.length := by
  rw [List.length_cons]
  omega

theorem mem_ofRaws {unit : Indentation} {file : Text} {number : Int} {raws : List Text}
    {lines : List Line} {l : Line} (h : ofRaws unit file number raws = .ok lines)
    (hl : l ∈ lines) : ∃ before raw after, raws = before ++ raw :: after ∧
      ofRaw unit file (number + before.length) raw = .ok l := by
  induction raws generalizing number lines with
  | nil =>
    cases h
    cases hl
  | cons raw raws ih =>
    rw [ofRaws] at h
    obtain ⟨first, hfirst, h⟩ := Outcome.of_bind_eq_ok h
    obtain ⟨rest, hrest, h⟩ := Outcome.of_bind_eq_ok h
    cases h
    rcases List.mem_cons.mp hl with rfl | hl
    · exact ⟨[], raw, raws, rfl, by simpa using hfirst⟩
    · obtain ⟨before, raw', after, rfl, hl⟩ := ih hrest hl
      refine ⟨raw :: before, raw', after, rfl, ?_⟩
      rwa [add_length_cons]

/-- The first raw line that is refused. -/
theorem ofRaws_eq_error {unit : Indentation} {file : Text} {number : Int} {raws : List Text}
    {f : Fault} (h : ofRaws unit file number raws = .error f) :
    ∃ before raw after lines, raws = before ++ raw :: after ∧
      ofRaws unit file number before = .ok lines ∧
      ofRaw unit file (number + before.length) raw = .error f := by
  induction raws generalizing number with
  | nil => cases h
  | cons raw raws ih =>
    rw [ofRaws] at h
    cases hfirst : ofRaw unit file number raw with
    | error g =>
      rw [hfirst] at h
      cases h
      exact ⟨[], raw, raws, [], rfl, rfl, by simpa using hfirst⟩
    | ok l =>
      cases hrest : ofRaws unit file (number + 1) raws with
      | ok ls =>
        rw [hfirst, hrest] at h
        cases h
      | error g =>
        rw [hfirst, hrest] at h
        cases h
        obtain ⟨before, raw', after, lines, rfl, hlines, hraw⟩ := ih hrest
        refine ⟨raw :: before, raw', after, l :: lines, rfl, ?_, ?_⟩
        · rw [ofRaws, hfirst, hlines]
          rfl
        · rwa [add_length_cons]

/-- The first indented line is refused. -/
theorem detect_eq_error {file : Text} {number : Int} {raws : List Text} {f : Fault}
    (h : Indentation.detect file number raws = .error f) :
    ∃ before raw after, raws = before ++ raw :: after ∧
      (∀ s ∈ before, Indentation.shows s = false) ∧ Indentation.shows raw = true ∧
      Indentation.ofLine? raw = none ∧ f.pos? = some ⟨file, number + before.length, 0⟩ := by
  induction raws generalizing number with
  | nil => cases h
  | cons raw raws ih =>
    rw [Indentation.detect] at h
    split at h
    · rename_i hshows
      split at h
      · cases h
      · rename_i hunit
        cases h
        refine ⟨[], raw, raws, rfl, List.forall_mem_nil _, hshows, hunit, ?_⟩
        exact congrArg (fun line => some (⟨file, line, 0⟩ : Position)) (Int.add_zero number).symm
    · rename_i hhidden
      obtain ⟨before, raw', after, rfl, hbefore, hshows, hunit, hpos⟩ := ih h
      refine ⟨raw :: before, raw', after, rfl, ?_, hshows, hunit, ?_⟩
      · intro s hs
        rcases List.mem_cons.mp hs with rfl | hs
        · exact Bool.eq_false_iff.mpr hhidden
        · exact hbefore s hs
      · rwa [add_length_cons]

end Line

/-! ## Building the tree -/

namespace Source
open Relation

theorem locating_eq_error {α : Type} {l : Line} {x : Except Fault α} {f : Fault}
    (h : locating l x = .error f) : ∃ g, x = .error g ∧ f = g.locate l.position := by
  cases x with
  | ok a => cases h
  | error g =>
    cases h
    exact ⟨g, rfl, rfl⟩

/-- What is left after reading a line, or what is nested beneath it, lies ahead of it. -/
theorem Runs.subset {lines rest : List Line} {nodes : List TreeNode} (h : Runs lines nodes rest) :
    ∀ x ∈ rest, x ∈ lines := by
  obtain ⟨runs, rfl, -⟩ := h
  exact fun x hx => List.mem_append_right _ hx

/-- The builder comes to a line at which it is stuck. -/
def GetsStuck (way : PropertySyntax) (spot : Spot) (f : Fault) : Prop :=
  ∃ reached l, ReflTransGen (Spot.Next way) spot reached ∧ reached.Stuck way l ∧
    l ∈ spot.ahead ∧ f.pos? = some l.position

theorem GetsStuck.of_next {way : PropertySyntax} {spot next : Spot} {f : Fault}
    (h : GetsStuck way next f) (hnext : spot.Next way next)
    (hahead : ∀ x ∈ next.ahead, x ∈ spot.ahead) : GetsStuck way spot f := by
  obtain ⟨reached, l, hreach, hstuck, hl, hpos⟩ := h
  exact ⟨reached, l, .head hnext hreach, hstuck, hahead l hl, hpos⟩

/-- **A tree that cannot be built is refused at a line.** The induction is on the fuel, which the
lines bound. A fault from within a branch passes the line that opens it, but has its place by
then. -/
theorem build_stuck {way : PropertySyntax} {fuel level : Nat} {done : List Statement}
    {lines : List Line} {f : Fault} (hfuel : lines.length ≤ fuel) (hlines : AllFilled lines)
    (hplaced : ∀ l ∈ lines, l.position.isNone = false)
    (h : build way fuel level done lines = .error f) : GetsStuck way ⟨level, done, lines⟩ f := by
  induction fuel generalizing level done lines f with
  | zero => cases h
  | succ fuel ih =>
    cases lines with
    | nil => cases h
    | cons l rest =>
      obtain ⟨hl, hrest⟩ := List.forall_mem_cons.mp hlines
      rw [build, upcoming_cons hl] at h
      dsimp only at h
      split at h
      · cases h
      split at h
      · rename_i hdeep
        cases h
        exact ⟨_, l, .refl, .tooDeep hdeep, List.mem_cons_self,
          (Fault.isBare_of _ _).pos?_locate l.position⟩
      rename_i hnotless hnotmore
      obtain rfl : l.indent = level :=
        Nat.le_antisymm (Nat.not_lt.mp hnotmore) (Nat.not_lt.mp hnotless)
      rcases Outcome.of_bind_eq_error h with hclass | ⟨⟨shape, rest'⟩, hclass, h⟩
      · obtain ⟨g, hunread, rfl⟩ := locating_eq_error hclass
        have hbare := bare_classify way l rest done.head? g hunread
        exact ⟨_, l, .refl, .unread hunread, List.mem_cons_self, hbare.pos?_locate l.position⟩
      replace hclass := locating_eq_ok hclass
      obtain ⟨more, rfl, -⟩ := classify_takes hrest hclass
      have hlength : rest'.length ≤ fuel := by
        rw [List.length_cons, List.length_append] at hfuel
        omega
      have hsubset : ∀ x ∈ rest', x ∈ l :: (more ++ rest') :=
        fun x hx => List.mem_cons_of_mem _ (List.mem_append_right _ hx)
      have hkept {left : List Line} (hleft : ∀ x ∈ left, x ∈ l :: (more ++ rest')) :
          AllFilled left ∧ ∀ x ∈ left, x.position.isNone = false :=
        ⟨fun x hx => hlines x (hleft x hx), fun x hx => hplaced x (hleft x hx)⟩
      obtain ⟨hfilled', hplaced'⟩ := hkept hsubset
      -- what is past the lines beneath this one
      have hpast {body : List Statement} {rest'' : List Line}
          (hbody : build way fuel (l.indent + 1) [] rest' = .ok (body, rest'')) :
          rest''.length ≤ fuel ∧ ∀ x ∈ rest'', x ∈ l :: (more ++ rest') := by
        obtain ⟨⟨nodes, hruns, -⟩, -⟩ := build_runs hlength hfilled' hbody
        exact ⟨hruns.length_le.trans hlength, fun x hx => hsubset x (hruns.subset x hx)⟩
      cases shape with
      | skipped => exact (ih hlength hfilled' hplaced' h).of_next (.skipped hclass) hsubset
      | closed s => exact (ih hlength hfilled' hplaced' h).of_next (.closed hclass) hsubset
      | opens make =>
        rcases Outcome.of_bind_eq_error h with hbody | ⟨⟨body, rest''⟩, hbody, h⟩
        · exact (ih hlength hfilled' hplaced' hbody).of_next (.inside hclass) hsubset
        · obtain ⟨hlength', hsubset'⟩ := hpast hbody
          obtain ⟨hfilled'', hplaced''⟩ := hkept hsubset'
          exact (ih hlength' hfilled'' hplaced'' h).of_next
            (.past hclass hbody) hsubset'
      | further head others test =>
        rcases Outcome.of_bind_eq_error h with hbody | ⟨⟨body, rest''⟩, hbody, h⟩
        · obtain ⟨g, hinner, rfl⟩ := locating_eq_error hbody
          obtain ⟨reached, x, hreach, hstuck, hx, hpos⟩ := ih hlength hfilled' hplaced' hinner
          exact ⟨reached, x, .head (.insideBranch hclass) hreach, hstuck, hsubset x hx,
            Fault.pos?_locate_of_placed hpos (hplaced' x hx) l.position⟩
        · replace hbody := locating_eq_ok hbody
          obtain ⟨hlength', hsubset'⟩ := hpast hbody
          obtain ⟨hfilled'', hplaced''⟩ := hkept hsubset'
          exact (ih hlength' hfilled'' hplaced'' h).of_next
            (.pastBranch hclass hbody) hsubset'

end Source

namespace Document
variable {way : PropertySyntax} {doc : Document}

theorem hasLine_lineAfter {before after : List Text} {raw : Text}
    (h : doc.raws = before ++ raw :: after) (hfilled : Line.IsFilled raw) :
    doc.HasLine (doc.lineAfter before) :=
  ⟨rfl, before, raw, after, h, hfilled, rfl⟩

theorem hasLine_of_mem {lines : List Line} {l : Line}
    (h : Line.ofSource doc.text doc.file doc.first = .ok lines) (hl : l ∈ lines)
    (hfilled : l.blank = false) : doc.HasLine l.position := by
  rw [Line.ofSource] at h
  obtain ⟨unit, -, h⟩ := Outcome.of_bind_eq_ok h
  obtain ⟨before, raw, after, hraws, hraw⟩ := Line.mem_ofRaws h hl
  obtain ⟨hfile, hnumber, hblank⟩ := Line.ofRaw_eq_ok hraw
  exact ⟨hfile, before, raw, after, hraws, hblank hfilled, hnumber⟩

/-- A position of a document whose numbers are positive is not missing. -/
theorem HasLine.isNone {pos : Position} (h : doc.HasLine pos) (hfirst : 0 ≤ doc.first) :
    pos.isNone = false := by
  obtain ⟨-, before, -, -, -, -, hline⟩ := h
  have hstart : 1 ≤ doc.start := by
    rw [start, Line.firstNumber]
    split <;> omega
  have hne : pos.line ≠ 0 := by omega
  rw [Position.isNone, beq_eq_false_iff_ne.mpr hne, Bool.false_and]

/-- The nodes of a tree stand at lines of its document. -/
theorem hasLine_of_parse {src : Source}
    (h : Source.parse way doc.text doc.file doc.first = .ok src) :
    ∀ n ∈ src.nodes, doc.HasLine n.pos := by
  intro n hn
  rw [Source.parse] at h
  obtain ⟨lines, hlines, h⟩ := Outcome.of_bind_eq_ok h
  obtain ⟨runs, hfilled, hproper, hnodes, -⟩ := Source.ofLines_runs h
  rw [List.append_nil] at hfilled
  have hsub := hproper.positions_sublist
  rw [hnodes, ← hfilled] at hsub
  obtain ⟨l, hl, hpos⟩ := List.mem_map.mp (hsub.subset (List.mem_map_of_mem hn))
  obtain ⟨hmem, hblank⟩ := List.mem_filter.mp hl
  rw [← hpos]
  exact hasLine_of_mem hlines hmem (by simpa using hblank)

/-- **A document without a tree is refused at one of its lines**, and the fault names that line. -/
theorem refusedAt_of_parse {f : Fault} (hfirst : 0 ≤ doc.first)
    (h : Source.parse way doc.text doc.file doc.first = .error f) :
    ∃ pos, f.pos? = some pos ∧ doc.HasLine pos ∧ doc.RefusedAt way pos := by
  rw [Source.parse] at h
  rcases Outcome.of_bind_eq_error h with hlines | ⟨lines, hlines, h⟩
  · rw [Line.ofSource] at hlines
    rcases Outcome.of_bind_eq_error hlines with hunit | ⟨unit, hunit, hraws⟩
    · obtain ⟨before, raw, after, hraws, hbefore, hshows, hmixed, hpos⟩ :=
        Line.detect_eq_error hunit
      exact ⟨_, hpos, hasLine_lineAfter hraws (Line.isFilled_of_shows hshows),
        .mixed hraws hbefore hshows hmixed⟩
    · obtain ⟨before, raw, after, read, hsplit, hbefore, hraw⟩ := Line.ofRaws_eq_error hraws
      obtain ⟨hfilled, hpos⟩ := Line.ofRaw_eq_error hraw
      exact ⟨_, hpos, hasLine_lineAfter hsplit hfilled, .uneven hsplit hunit hbefore hraw⟩
  · have hfilled : ∀ l ∈ lines.filter fun l => !l.blank, doc.HasLine l.position := by
      intro l hl
      obtain ⟨hmem, hblank⟩ := List.mem_filter.mp hl
      exact hasLine_of_mem hlines hmem (by simpa using hblank)
    obtain ⟨spot, l, hreach, hstuck, hl, hpos⟩ :=
      Source.build_stuck (Nat.le_refl _) (Source.allFilled_filled lines)
        (fun l hl => (hfilled l hl).isNone hfirst) (Source.build_of_ofLines_error h)
    exact ⟨_, hpos, hfilled l hl, .stuck hlines hreach hstuck⟩

end Document

end IndentedSass
