import IndentedSass.Proofs.Documents
import IndentedSass.Proofs.Sources
import IndentedSass.Proofs.WhiteSpace
import Mathlib.Data.List.Forall2

/-!
# Levels of indentation

An outline is a list of entries with their levels, written down with one unit of indentation.
Reading the lines of a source and writing an outline are inverse: the lines of a written outline
are its entries, and the lines of any source that can be read say how the source is written. Three
things stand between the two. The unit is found on one line and used for all of them, the line
that shows it is chosen by characters while lines are measured by bytes, and a carriage return
before a line feed belongs to the line end (`Text.splitOn_replace`).
-/

namespace IndentedSass

namespace Text
open Ascii

/-! ## Line ends -/

/-- A line without the carriage return at its end. -/
def dropReturn : Text → Text
  | [] => []
  | [c] => if c = carriageReturn then [] else [c]
  | c :: d :: s => c :: dropReturn (d :: s)

/-- Lines without the carriage returns that belong to line ends; the last line has no line end. -/
def dropReturns : List Text → List Text
  | [] => []
  | [s] => [s]
  | s :: t :: rest => dropReturn s :: dropReturns (t :: rest)

theorem dropReturn_cons {c : UInt8} {s : Text} (h : s = [] → c ≠ carriageReturn) :
    dropReturn (c :: s) = c :: dropReturn s := by
  cases s with
  | nil => exact if_neg (h rfl)
  | cons d s => rfl

theorem dropReturn_of_getLast? {s : Text} (h : ∀ c ∈ s.getLast?, c ≠ carriageReturn) :
    dropReturn s = s := by
  induction s with
  | nil => rfl
  | cons c s ih =>
    have hc : s = [] → c ≠ carriageReturn := by
      rintro rfl
      exact h c rfl
    rw [dropReturn_cons hc, ih]
    intro d hd
    refine h d ?_
    rw [List.getLast?_cons, Option.mem_def.1 hd]
    rfl

/-- A line is its text, or its text and a return. -/
theorem eq_dropReturn (s : Text) : s = dropReturn s ∨ s = dropReturn s ++ [carriageReturn] := by
  induction s with
  | nil => exact .inl rfl
  | cons c s ih =>
    by_cases h : s = [] ∧ c = carriageReturn
    · obtain ⟨rfl, rfl⟩ := h
      exact .inr rfl
    · rw [dropReturn_cons fun hs hc => h ⟨hs, hc⟩, List.cons_append, List.cons_inj_right,
        List.cons_inj_right]
      exact ih

theorem dropReturns_of_forall {lines : List Text}
    (h : ∀ s ∈ lines, ∀ c ∈ s.getLast?, c ≠ carriageReturn) : dropReturns lines = lines := by
  fun_induction dropReturns lines with
  | case1 => rfl
  | case2 s => rfl
  | case3 s t rest ih =>
    obtain ⟨hs, hrest⟩ := List.forall_mem_cons.1 h
    rw [dropReturn_of_getLast? hs, ih hrest]

/-- Every line but the last may have lost a return. -/
theorem forall₂_dropReturns (lines : List Text) :
    List.Forall₂ (fun s t => s = t ∨ s = t ++ [carriageReturn]) lines (dropReturns lines) := by
  fun_induction dropReturns lines with
  | case1 => exact .nil
  | case2 s => exact .cons (.inl rfl) .nil
  | case3 s t rest ih => exact .cons (eq_dropReturn s) ih

theorem splitOn_sep (sep : UInt8) (s : Text) : splitOn sep (sep :: s) = [] :: splitOn sep s :=
  splitOn_append sep [] s

theorem splitOn_cons {sep c : UInt8} (h : c ≠ sep) {s piece : Text} {rest : List Text}
    (hs : splitOn sep s = piece :: rest) : splitOn sep (c :: s) = (c :: piece) :: rest := by
  rw [splitOn, hs]
  exact if_neg h

theorem lineEnd_eq : ("\r\n" : Text) = [carriageReturn, newline] := by decide +kernel

theorem lineFeed_eq : ("\n" : Text) = [newline] := by decide +kernel

/-- A return before a line feed is dropped. -/
theorem replace_lineEnd (s : Text) :
    replace "\r\n" "\n" (carriageReturn :: newline :: s) = newline :: replace "\r\n" "\n" s := by
  rw [lineEnd_eq, lineFeed_eq]
  rfl

/-- Every other return stays. -/
theorem replace_cons {c : UInt8} {s : Text} (h : ¬(c = carriageReturn ∧ s.head? = some newline)) :
    replace "\r\n" "\n" (c :: s) = c :: replace "\r\n" "\n" s := by
  have hstarts : ¬[carriageReturn, newline].isPrefixOf (c :: s) = true := by
    intro hstarts
    obtain ⟨rest, hrest⟩ := List.isPrefixOf_iff_prefix.1 hstarts
    obtain ⟨rfl, rfl⟩ := List.cons.inj hrest
    exact h ⟨rfl, rfl⟩
  rw [lineEnd_eq, lineFeed_eq]
  exact if_neg hstarts

/-- Only a text that starts with the separator has an empty first piece and more of them. -/
theorem head?_of_splitOn {sep : UInt8} {s next : Text} {rest : List Text}
    (h : splitOn sep s = [] :: next :: rest) : s.head? = some sep := by
  cases s with
  | nil => cases h
  | cons c s =>
    by_cases hc : c = sep
    · rw [hc]
      rfl
    · obtain ⟨piece, pieces, hs⟩ := List.exists_cons_of_ne_nil (splitOn_ne_nil sep s)
      rw [splitOn_cons hc hs] at h
      cases h

/-- Cutting after line ends are made uniform is cutting first and dropping their returns. -/
theorem splitOn_replace (s : Text) :
    splitOn newline (replace "\r\n" "\n" s) = dropReturns (splitOn newline s) := by
  induction hlength : s.length using Nat.strongRecOn generalizing s with
  | ind length ih =>
    subst hlength
    cases s with
    | nil => rfl
    | cons c s =>
      by_cases hend : c = carriageReturn ∧ s.head? = some newline
      · obtain ⟨rfl, hnewline⟩ := hend
        obtain ⟨rest, rfl⟩ := List.head?_eq_some_iff.1 hnewline
        obtain ⟨piece, pieces, hrest⟩ := List.exists_cons_of_ne_nil (splitOn_ne_nil newline rest)
        have hcut := splitOn_cons (by decide : carriageReturn ≠ newline) (splitOn_sep newline rest)
        have hshort : rest.length < (carriageReturn :: newline :: rest).length := by
          simp only [List.length_cons]
          omega
        rw [replace_lineEnd, splitOn_sep, ih _ hshort rest rfl, hcut, hrest]
        rfl
      · rw [replace_cons hend]
        have hrest := ih _ (by simp) s rfl
        obtain ⟨piece, pieces, hs⟩ := List.exists_cons_of_ne_nil (splitOn_ne_nil newline s)
        by_cases hc : c = newline
        · subst hc
          rw [splitOn_sep, splitOn_sep, hrest, hs]
          rfl
        · rw [hs] at hrest
          rw [splitOn_cons hc hs]
          cases pieces with
          | nil => exact splitOn_cons hc hrest
          | cons next pieces =>
            have hkeep : piece = [] → c ≠ carriageReturn := by
              rintro rfl hreturn
              exact hend ⟨hreturn, head?_of_splitOn hs⟩
            rw [splitOn_cons hc hrest, dropReturns, dropReturn_cons hkeep]

/-! ## Ends of a text -/

theorem dropWhile_of_head? {p : UInt8 → Bool} {s : Text} (h : ∀ c ∈ s.head?, p c = false) :
    s.dropWhile p = s := by
  cases s with
  | nil => rfl
  | cons c s => rw [List.dropWhile_cons, h c rfl, if_neg Bool.false_ne_true]

theorem takeWhile_of_head? {p : UInt8 → Bool} {s : Text} (h : ∀ c ∈ s.head?, p c = false) :
    s.takeWhile p = [] := by
  cases s with
  | nil => rfl
  | cons c s => rw [List.takeWhile_cons, h c rfl, if_neg Bool.false_ne_true]

theorem trimEndWhile_of_getLast? {p : UInt8 → Bool} {s : Text}
    (h : ∀ c ∈ s.getLast?, p c = false) : s.trimEndWhile p = s := by
  rw [trimEndWhile, dropWhile_of_head?, List.reverse_reverse]
  rwa [List.head?_reverse]

/-- What is trimmed away is a tail of the characters that are to be trimmed. -/
theorem exists_trimEndWhile (p : UInt8 → Bool) (s : Text) :
    ∃ tail, s = s.trimEndWhile p ++ tail ∧ ∀ c ∈ tail, p c = true := by
  refine ⟨(s.reverse.takeWhile p).reverse, ?_, ?_⟩
  · rw [trimEndWhile, ← List.reverse_append, List.takeWhile_append_dropWhile,
      List.reverse_reverse]
  · intro c hc
    exact List.mem_takeWhile_imp (List.mem_reverse.1 hc)

theorem mem_glyphs_append {lead s : Text} {g : Glyph} (hlead : ∀ c ∈ lead, c < 0x80)
    (hg : g ∈ s.glyphs) : g ∈ (lead ++ s).glyphs := by
  induction lead with
  | nil => exact hg
  | cons c lead ih =>
    obtain ⟨hc, hrest⟩ := List.forall_mem_cons.1 hlead
    rw [List.cons_append, glyphs_ascii hc]
    exact List.mem_cons_of_mem _ (ih hrest)

end Text

namespace Line
open Ascii

/-! ## Units -/

namespace Indentation

/-- A tab, or one or more spaces. -/
def Sound (u : Indentation) : Prop := u.char = tab ∧ u.width = 1 ∨ u.char = space ∧ 1 ≤ u.width

/-- The unit as it is written. -/
def text (u : Indentation) : Text := List.replicate u.width u.char

variable {u : Indentation}

theorem Sound.width_pos (h : u.Sound) : 0 < u.width := by
  obtain ⟨-, hwidth⟩ | ⟨-, hwidth⟩ := h <;> omega

theorem Sound.isIndent_char (h : u.Sound) : isIndent u.char = true := by
  obtain ⟨hchar, -⟩ | ⟨hchar, -⟩ := h <;> rw [hchar] <;> decide

theorem Sound.char_lt (h : u.Sound) : u.char < 0x80 := by
  obtain ⟨hchar, -⟩ | ⟨hchar, -⟩ := h <;> rw [hchar] <;> decide

theorem sound_standard : standard.Sound := .inr ⟨rfl, by decide⟩

theorem times_text (u : Indentation) (n : Nat) :
    Text.times n u.text = List.replicate (n * u.width) u.char :=
  List.flatten_replicate_replicate

theorem eq_char_of_mem {n : Nat} {c : UInt8} (hc : c ∈ Text.times n u.text) : c = u.char := by
  rw [times_text] at hc
  exact List.eq_of_mem_replicate hc

/-- So many units of indentation are that level. -/
theorem level_times (hu : u.Sound) (n : Nat) : u.level (Text.times n u.text) = .ok n := by
  have hpos := hu.width_pos
  rw [times_text, level]
  simp [hpos]

/-- A level is told only of whole units of the one character. -/
theorem eq_times_of_level {lead : Text} {n : Nat} (h : u.level lead = .ok n) :
    lead = Text.times n u.text := by
  rw [level] at h
  split at h
  · cases h
  · rename_i hsame
    split at h
    · cases h
    · rename_i hwhole
      cases h
      have hchars : ∀ c ∈ lead, c = u.char := by simpa using hsame
      have hlength : lead.length / u.width * u.width = lead.length :=
        Nat.div_mul_cancel (Nat.dvd_of_mod_eq_zero (not_not.1 hwhole))
      rw [times_text, hlength]
      exact List.eq_replicate_iff.2 ⟨rfl, hchars⟩

/-- Every other indentation is at fault for that. -/
theorem is_badIndent_of_level {lead : Text} {f : Fault} {pos : Position}
    (h : u.level lead = .error f) : (f.locate pos).is .badIndent = true := by
  rw [level] at h
  split at h
  · cases h
    rfl
  · split at h
    · cases h
      rfl
    · cases h

/-- The unit that is read off the first indented line is sound. -/
theorem sound_of_ofLine? {s : Text} (hs : shows s = true) (h : ofLine? s = some u) : u.Sound := by
  cases s with
  | nil => cases h; exact sound_standard
  | cons c s =>
    have hc : c = space ∨ c = tab := by
      simpa [shows, isIndent] using (Bool.and_eq_true_iff.1 hs).2
    rw [ofLine?] at h
    split at h
    · cases h
    · cases h
      obtain rfl | rfl := hc
      · exact .inr ⟨rfl, Nat.succ_pos _⟩
      · exact .inl ⟨rfl, rfl⟩

/-- The unit of a source is a tab or some spaces, never nothing. -/
theorem sound_of_detect {file : Text} {number : Int} {raws : List Text}
    (h : detect file number raws = .ok u) : u.Sound := by
  induction raws generalizing number with
  | nil =>
    cases h
    exact sound_standard
  | cons s rest ih =>
    rw [detect] at h
    split at h
    · rename_i hshows
      split at h
      · rename_i hunit
        cases h
        exact sound_of_ofLine? hshows hunit
      · cases h
    · exact ih h

/-- If no unit can be told, the indentation is at fault. -/
theorem is_badIndent_of_detect {file : Text} {number : Int} {raws : List Text} {f : Fault}
    (h : detect file number raws = .error f) : f.is .badIndent = true := by
  induction raws generalizing number with
  | nil => cases h
  | cons s rest ih =>
    rw [detect] at h
    split at h
    · split at h
      · cases h
      · cases h
        rfl
    · exact ih h

end Indentation

/-! ## Reading -/

/-- What a record says about the line it belongs to. -/
structure Describes (u : Indentation) (raw : Text) (l : Line) : Prop where
  blank : l.blank = true → ∀ c ∈ raw, isTrailing c = true
  filled : l.blank = false → ∃ tail, raw = Text.times l.indent u.text ++ l.text ++ tail ∧
    ∀ c ∈ tail, isTrailing c = true

theorem isTrailing_of_isIndent {c : UInt8} (h : isIndent c = true) : isTrailing c = true := by
  rw [isTrailing, ← isIndent, h, Bool.true_or]

/-- A record has the level and the text that its line shows. -/
theorem describes_ofRaw {u : Indentation} {file raw : Text} {number : Int} {l : Line}
    (h : ofRaw u file number raw = .ok l) : Describes u raw l := by
  obtain ⟨tail, hraw, htail⟩ := Text.exists_trimEndWhile isTrailing raw
  rw [ofRaw] at h
  split at h
  · rename_i hempty
    cases h
    refine ⟨fun _ c hc => ?_, fun hfilled => (by cases hfilled)⟩
    rw [hraw] at hc
    rcases List.mem_append.1 hc with hc | hc
    · exact isTrailing_of_isIndent (List.dropWhile_eq_nil_iff.1 (List.isEmpty_iff.1 hempty) c hc)
    · exact htail c hc
  · split at h
    · rename_i indent hlevel
      cases h
      refine ⟨fun hblank => (by cases hblank), fun _ => ⟨tail, ?_, htail⟩⟩
      rw [← Indentation.eq_times_of_level hlevel, List.takeWhile_append_dropWhile]
      exact hraw
    · cases h

theorem is_badIndent_of_ofRaw {u : Indentation} {file raw : Text} {number : Int} {f : Fault}
    (h : ofRaw u file number raw = .error f) : f.is .badIndent = true := by
  rw [ofRaw] at h
  split at h
  · cases h
  · split at h
    · cases h
    · rename_i hlevel
      cases h
      exact Indentation.is_badIndent_of_level hlevel

/-- Records are numbered from the first line on. The induction is on the lines. -/
theorem describes_ofRaws {u : Indentation} {file : Text} {number : Int} {raws : List Text}
    {lines : List Line} (h : ofRaws u file number raws = .ok lines) :
    List.Forall₂ (Describes u) raws lines ∧
      ∀ (i : Nat) (l : Line), lines[i]? = some l → l.number = number + i ∧ l.file = file := by
  induction raws generalizing number lines with
  | nil =>
    cases h
    exact ⟨.nil, fun i l hl => by cases hl⟩
  | cons raw raws ih =>
    rw [ofRaws] at h
    obtain ⟨first, hfirst, h⟩ := Outcome.of_bind_eq_ok h
    obtain ⟨rest, hrest, h⟩ := Outcome.of_bind_eq_ok h
    cases h
    obtain ⟨hfile, hnumber, -⟩ := ofRaw_eq_ok hfirst
    obtain ⟨hall, hnumbers⟩ := ih hrest
    refine ⟨.cons (describes_ofRaw hfirst) hall, fun i l hl => ?_⟩
    cases i with
    | zero =>
      cases hl
      exact ⟨by omega, hfile⟩
    | succ i =>
      obtain ⟨hl, hlfile⟩ := hnumbers i l hl
      exact ⟨by omega, hlfile⟩

/-- A return at the end of a line is not described. -/
theorem Describes.of_return {u : Indentation} {raw bare : Text} {l : Line}
    (h : Describes u bare l) (hraw : raw = bare ∨ raw = bare ++ [carriageReturn]) :
    Describes u raw l := by
  obtain rfl | rfl := hraw
  · exact h
  have hreturn : isTrailing carriageReturn = true := by decide
  constructor
  · intro hblank c hc
    rcases List.mem_append.1 hc with hc | hc
    · exact h.blank hblank c hc
    · rw [List.mem_singleton.1 hc]
      exact hreturn
  · intro hfilled
    obtain ⟨tail, rfl, htail⟩ := h.filled hfilled
    refine ⟨tail ++ [carriageReturn], by rw [List.append_assoc], fun c hc => ?_⟩
    rcases List.mem_append.1 hc with hc | hc
    · exact htail c hc
    · rw [List.mem_singleton.1 hc]
      exact hreturn

theorem describes_returns {u : Indentation} {raws bares : List Text} {lines : List Line}
    (hraws : List.Forall₂ (fun raw bare => raw = bare ∨ raw = bare ++ [carriageReturn]) raws bares)
    (h : List.Forall₂ (Describes u) bares lines) : List.Forall₂ (Describes u) raws lines := by
  induction hraws generalizing lines with
  | nil =>
    cases h
    exact .nil
  | cons hraw _ ih =>
    obtain ⟨l, rest, hl, hrest, rfl⟩ := List.forall₂_cons_left_iff.1 h
    exact .cons (hl.of_return hraw) (ih hrest)

/-- The records of a source belong to its lines as they stand, returns included. -/
theorem describes_ofSource {source file : Text} {first : Int} {lines : List Line}
    (h : ofSource source file first = .ok lines) :
    ∃ u : Indentation, u.Sound ∧
      List.Forall₂ (Describes u) (Text.splitOn newline source) lines ∧
      ∀ (i : Nat) (l : Line), lines[i]? = some l →
        l.number = firstNumber first + i ∧ l.file = file := by
  rw [ofSource] at h
  obtain ⟨u, hunit, h⟩ := Outcome.of_bind_eq_ok h
  obtain ⟨hlines, hnumbers⟩ := describes_ofRaws h
  rw [raws, Text.splitOn_replace] at hlines
  exact ⟨u, Indentation.sound_of_detect hunit,
    describes_returns (Text.forall₂_dropReturns _) hlines, hnumbers⟩

/-- **All faults of splitting a source into lines are about indentation.** -/
theorem is_badIndent_of_ofSource {source file : Text} {first : Int} {f : Fault}
    (h : ofSource source file first = .error f) : f.is .badIndent = true := by
  rw [ofSource] at h
  obtain h | ⟨u, -, h⟩ := Outcome.of_bind_eq_error h
  · exact Indentation.is_badIndent_of_detect h
  · obtain ⟨_, _, _, _, -, -, hraw⟩ := ofRaws_eq_error h
    exact is_badIndent_of_ofRaw hraw

/-! ## Writing -/

/-- A text that can stand on a line: one line, with something to see on it, and without the white
space at its ends that would be taken for indentation or dropped. -/
structure Writable (s : Text) : Prop where
  oneLine : newline ∉ s
  visible : ∃ g ∈ s.glyphs, g.isSpace = false
  start : ∀ c ∈ s.head?, isIndent c = false
  ending : ∀ c ∈ s.getLast?, isTrailing c = false

/-- An entry of an outline: an empty line, or a text on a level. -/
inductive Entry where
  | empty
  | text (level : Nat) (s : Text)

namespace Entry

def level : Entry → Nat
  | empty => 0
  | text level _ => level

def IsWritable : Entry → Prop
  | empty => True
  | text _ s => Writable s

/-- The line on which an entry is written. -/
def write (u : Indentation) : Entry → Text
  | empty => []
  | text level s => Text.times level u.text ++ s

/-- The record that belongs to an entry. -/
def record (file : Text) (number : Int) : Entry → Line
  | empty => ⟨[], 0, number, file, true⟩
  | text level s => ⟨s, level, number, file, false⟩

end Entry

/-- Entries and the unit with which to write them. The first one that is indented shows the
unit. -/
structure Outline where
  unit : Indentation
  entries : List Entry
  sound : unit.Sound
  ne_nil : entries ≠ []
  writable : ∀ e ∈ entries, e.IsWritable
  first_level : ∀ e, entries.find? (0 < ·.level) = some e → e.level = 1

/-- The source of an outline. -/
def Outline.source (o : Outline) : Text := Text.join [newline] (o.entries.map (Entry.write o.unit))

/-- The records of an outline, numbered from `first`. -/
def Outline.lines (o : Outline) (file : Text) (first : Int) : List Line :=
  o.entries.mapIdx fun i e => e.record file (firstNumber first + i)

section
variable {u : Indentation} {s : Text}

theorem Writable.ne_nil (h : Writable s) : s ≠ [] := by
  rintro rfl
  obtain ⟨g, hg, -⟩ := h.visible
  cases hg

/-- Indentation is white space, so it does not hide what is to be seen on a line. -/
theorem Writable.isBlankText (h : Writable s) (hu : u.Sound) (n : Nat) :
    (Text.times n u.text ++ s).isBlankText = false := by
  rw [← Bool.not_eq_true]
  intro hblank
  obtain ⟨g, hg, hspace⟩ := h.visible
  have hascii : ∀ c ∈ Text.times n u.text, c < 0x80 := by
    intro c hc
    rw [Indentation.eq_char_of_mem hc]
    exact hu.char_lt
  have hmem := Text.mem_glyphs_append hascii hg
  rw [Text.isSpace_of_isBlankText hblank g hmem] at hspace
  cases hspace

theorem Writable.head?_append (h : Writable s) (hu : u.Sound) (n : Nat) :
    ((Text.times n u.text ++ s).head?.map isIndent).getD false = decide (0 < n) := by
  cases n with
  | zero =>
    obtain ⟨c, rest, rfl⟩ := List.exists_cons_of_ne_nil h.ne_nil
    exact h.start c rfl
  | succ n =>
    obtain ⟨k, hk⟩ := Nat.exists_eq_add_one.2 (Nat.mul_pos n.succ_pos hu.width_pos)
    rw [Indentation.times_text, hk, List.replicate_succ]
    simp [hu.isIndent_char]

/-- A written line shows its indentation if it has one. -/
theorem Writable.shows_write (h : Writable s) (hu : u.Sound) (n : Nat) :
    Indentation.shows (Text.times n u.text ++ s) = decide (0 < n) := by
  rw [Indentation.shows, h.isBlankText hu n, h.head?_append hu n]
  rfl

/-- One unit before a text that does not start with indentation is read as the unit. -/
theorem Writable.ofLine?_write (h : Writable s) (hu : u.Sound) :
    Indentation.ofLine? (Text.times 1 u.text ++ s) = some u := by
  obtain ⟨k, hk⟩ := Nat.exists_eq_add_one.2 hu.width_pos
  have hother : ∀ c ∈ s.head?, (c == u.char) = false := by
    intro c hc
    rw [beq_eq_false_iff_ne]
    rintro rfl
    exact absurd hu.isIndent_char (Bool.eq_false_iff.1 (h.start _ hc))
  have hrun : ∀ c ∈ List.replicate k u.char, (c == u.char) = true := by
    intro c hc
    rw [List.eq_of_mem_replicate hc, beq_self_eq_true]
  have hnext : (s.head?.map isIndent).getD false = false := by
    obtain ⟨c, rest, rfl⟩ := List.exists_cons_of_ne_nil h.ne_nil
    exact h.start c rfl
  rw [Indentation.times_text, Nat.one_mul, hk, List.replicate_succ, List.cons_append,
    Indentation.ofLine?, List.dropWhile_append_of_pos hrun, Text.dropWhile_of_head? hother, hnext,
    List.takeWhile_append_of_pos hrun, Text.takeWhile_of_head? hother, List.append_nil,
    List.length_replicate, if_neg Bool.false_ne_true, ← hk]
  obtain ⟨char, width⟩ := u
  obtain ⟨rfl, rfl⟩ | ⟨rfl, -⟩ := hu <;> rfl

/-- A written line is read back at its level. -/
theorem Writable.ofRaw_write (h : Writable s) (hu : u.Sound) {v : Indentation} {n : Nat}
    (hlevel : v.level (Text.times n u.text) = .ok n) (file : Text) (number : Int) :
    ofRaw v file number (Text.times n u.text ++ s) = .ok ⟨s, n, number, file, false⟩ := by
  have hindent : ∀ c ∈ Text.times n u.text, isIndent c = true := by
    intro c hc
    rw [Indentation.eq_char_of_mem hc]
    exact hu.isIndent_char
  have htrim : (Text.times n u.text ++ s).trimEndWhile isTrailing = Text.times n u.text ++ s := by
    apply Text.trimEndWhile_of_getLast?
    rw [List.getLast?_append_of_ne_nil _ h.ne_nil]
    exact h.ending
  have htext : (Text.times n u.text ++ s).dropWhile isIndent = s := by
    rw [List.dropWhile_append_of_pos hindent, Text.dropWhile_of_head? h.start]
  have hlead : (Text.times n u.text ++ s).takeWhile isIndent = Text.times n u.text := by
    rw [List.takeWhile_append_of_pos hindent, Text.takeWhile_of_head? h.start, List.append_nil]
  rw [ofRaw]
  simp only [htrim, htext, hlead, hlevel, List.isEmpty_eq_false_iff.2 h.ne_nil]
  rfl

/-! ## Outlines -/

theorem Entry.shows_write {e : Entry} (he : e.IsWritable) (hu : u.Sound) :
    Indentation.shows (e.write u) = decide (0 < e.level) := by
  cases e with
  | empty => rfl
  | text level s => exact Writable.shows_write he hu level

/-- So is an entry, be it blank or not. -/
theorem Entry.ofRaw_write {e : Entry} (he : e.IsWritable) (hu : u.Sound) {v : Indentation}
    (hlevel : v.level (Text.times e.level u.text) = .ok e.level) (file : Text) (number : Int) :
    ofRaw v file number (e.write u) = .ok (e.record file number) := by
  cases e with
  | empty => rfl
  | text level s => exact Writable.ofRaw_write he hu hlevel file number

theorem Entry.newline_not_mem {e : Entry} (he : e.IsWritable) (hu : u.Sound) :
    newline ∉ e.write u := by
  cases e with
  | empty => exact List.not_mem_nil
  | text level s =>
    intro hmem
    rcases List.mem_append.1 hmem with hmem | hmem
    · have hindent := hu.isIndent_char
      rw [← Indentation.eq_char_of_mem hmem] at hindent
      exact absurd hindent (by decide)
    · exact he.oneLine hmem

theorem Entry.getLast?_write {e : Entry} (he : e.IsWritable) :
    ∀ c ∈ (e.write u).getLast?, c ≠ carriageReturn := by
  cases e with
  | empty =>
    intro c hc
    cases hc
  | text level s =>
    intro c hc hreturn
    rw [write, List.getLast?_append_of_ne_nil _ (Writable.ne_nil he)] at hc
    have htrailing := he.ending c hc
    rw [hreturn] at htrailing
    cases htrailing

/-- The unit that is found is the one that was written, unless nothing is indented. -/
theorem detect_write {entries : List Entry} (hu : u.Sound) (hentries : ∀ e ∈ entries, e.IsWritable)
    (hfirst : ∀ e, entries.find? (0 < ·.level) = some e → e.level = 1) (file : Text)
    (number : Int) :
    ∃ v : Indentation, Indentation.detect file number (entries.map (Entry.write u)) = .ok v ∧
      (v = u ∨ ∀ e ∈ entries, e.level = 0) := by
  induction entries generalizing number with
  | nil => exact ⟨_, rfl, .inr (List.forall_mem_nil _)⟩
  | cons e entries ih =>
    obtain ⟨he, hrest⟩ := List.forall_mem_cons.1 hentries
    rw [List.map_cons, Indentation.detect, Entry.shows_write he hu]
    by_cases hlevel : 0 < e.level
    · have hone : e.level = 1 := hfirst e (List.find?_cons_of_pos (by simpa using hlevel))
      refine ⟨u, ?_, .inl rfl⟩
      cases e with
      | empty => cases hone
      | text level s =>
        obtain rfl : level = 1 := hone
        rw [Entry.write, Writable.ofLine?_write he hu]
        rfl
    · rw [List.find?_cons_of_neg (by simpa using hlevel)] at hfirst
      obtain ⟨v, hv, hcases⟩ := ih hrest hfirst (number + 1)
      refine ⟨v, ?_, ?_⟩
      · rw [if_neg (by simpa using hlevel)]
        exact hv
      · refine hcases.imp_right fun hzero => List.forall_mem_cons.2 ⟨?_, hzero⟩
        omega

/-- Entries are read back one by one, with the numbers of their lines. -/
theorem ofRaws_write {entries : List Entry} {v : Indentation} {file : Text}
    (h : ∀ e ∈ entries, ∀ number, ofRaw v file number (e.write u) = .ok (e.record file number))
    (number : Int) :
    ofRaws v file number (entries.map (Entry.write u)) =
      .ok (entries.mapIdx fun i e => e.record file (number + i)) := by
  induction entries generalizing number with
  | nil => rfl
  | cons e entries ih =>
    obtain ⟨he, hrest⟩ := List.forall_mem_cons.1 h
    have hshift : ∀ i : Nat, number + 1 + (i : Int) = number + ((i + 1 : Nat) : Int) := by
      intro i
      omega
    rw [List.map_cons, ofRaws, he number, ih hrest (number + 1), List.mapIdx_cons]
    simp only [hshift, Int.natCast_zero, Int.add_zero]
    rfl

end

/-- The lines of a written outline are its entries. -/
theorem Outline.ofSource_source (o : Outline) (file : Text) (first : Int) :
    ofSource o.source file first = .ok (o.lines file first) := by
  have hpieces : ∀ s ∈ o.entries.map (Entry.write o.unit), newline ∉ s := by
    intro s hs
    obtain ⟨e, he, rfl⟩ := List.mem_map.1 hs
    exact Entry.newline_not_mem (o.writable e he) o.sound
  have hends : ∀ s ∈ o.entries.map (Entry.write o.unit), ∀ c ∈ s.getLast?,
      c ≠ carriageReturn := by
    intro s hs
    obtain ⟨e, he, rfl⟩ := List.mem_map.1 hs
    exact Entry.getLast?_write (o.writable e he)
  have hne : o.entries.map (Entry.write o.unit) ≠ [] := by
    rw [ne_eq, List.map_eq_nil_iff]
    exact o.ne_nil
  have hraws : raws o.source = o.entries.map (Entry.write o.unit) := by
    rw [raws, Text.splitOn_replace, source, Text.splitOn_join hne hpieces,
      Text.dropReturns_of_forall hends]
  obtain ⟨v, hdetect, hv⟩ := detect_write o.sound o.writable o.first_level file (firstNumber first)
  have hlevel : ∀ e ∈ o.entries, v.level (Text.times e.level o.unit.text) = .ok e.level := by
    intro e he
    obtain rfl | hzero := hv
    · exact Indentation.level_times o.sound e.level
    · rw [hzero e he]
      exact Indentation.level_times (Indentation.sound_of_detect hdetect) 0
  rw [ofSource, hraws, hdetect]
  exact ofRaws_write (fun e he => Entry.ofRaw_write (o.writable e he) o.sound (hlevel e he) file) _

/-- **Reading lines and writing outlines are inverse.** A written outline is read as its entries.
Any source that can be read is written with one unit: each line is its level of units, its text,
and white space that does not count. Nothing but bad indentation is refused, and the unit by which
lines are measured is never empty. -/
theorem ofSource_inverts_writing :
    (∀ (o : Outline) (file : Text) (first : Int),
      ofSource o.source file first = .ok (o.lines file first)) ∧
    (∀ (source file : Text) (first : Int) (lines : List Line),
      ofSource source file first = .ok lines →
      ∃ u : Indentation, u.Sound ∧
        List.Forall₂ (Describes u) (Text.splitOn newline source) lines ∧
        ∀ (i : Nat) (l : Line), lines[i]? = some l →
          l.number = firstNumber first + i ∧ l.file = file) ∧
    ∀ (source file : Text) (first : Int),
      (∀ f, ofSource source file first = .error f → f.is .badIndent = true) ∧
      ∀ u, Indentation.detect file (firstNumber first) (raws source) = .ok u → 0 < u.width := by
  refine ⟨Outline.ofSource_source, fun _ _ _ _ => describes_ofSource, fun _ _ _ => ⟨?_, ?_⟩⟩
  · intro f
    exact is_badIndent_of_ofSource
  · intro u hu
    exact (Indentation.sound_of_detect hu).width_pos

/-- Three spaces a level; one text starts with a no-break space, one has a return inside. -/
def Outline.spaced : Outline where
  unit := ⟨space, 3⟩
  entries := [.text 0 "a", .empty, .text 1 "\u00a0b", .text 2 "c\rd"]
  sound := .inr ⟨rfl, by decide⟩
  ne_nil := List.cons_ne_nil _ _
  writable := by
    simp only [List.forall_mem_cons]
    refine ⟨?_, trivial, ?_, ?_, List.forall_mem_nil _⟩
    all_goals constructor <;> decide +kernel
  first_level := by
    intro e he
    obtain rfl := Option.some.inj he
    rfl

/-- A wide space is no indentation, and a return within a line is part of it. A first line number of
zero stands for one. -/
theorem ofSource_inverts_writing_spaced :
    ofSource "a\n\n   \u00a0b\n      c\rd" "list.sass" 0 = .ok
      [⟨"a", 0, 1, "list.sass", false⟩, ⟨[], 0, 2, "list.sass", true⟩,
        ⟨"\u00a0b", 1, 3, "list.sass", false⟩, ⟨"c\rd", 2, 4, "list.sass", false⟩] := by
  have hread := ofSource_inverts_writing.1 Outline.spaced "list.sass" 0
  have hsource : Outline.spaced.source = "a\n\n   \u00a0b\n      c\rd" := by decide +kernel
  have hlines : Outline.spaced.lines "list.sass" 0 =
      [⟨"a", 0, 1, "list.sass", false⟩, ⟨[], 0, 2, "list.sass", true⟩,
        ⟨"\u00a0b", 1, 3, "list.sass", false⟩, ⟨"c\rd", 2, 4, "list.sass", false⟩] := by
    decide +kernel
  rw [hsource, hlines] at hread
  exact hread

end Line

end IndentedSass
