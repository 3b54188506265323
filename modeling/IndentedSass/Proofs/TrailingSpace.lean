import IndentedSass.Proofs.LineLevels
import IndentedSass.Proofs.QuotedStrings

/-!
# Space at the ends of lines

Spaces, tabs and carriage returns at the end of a line do not count. The records of a line are
measured on its `Line.bare` form, without them. The unit of indentation is found on the raw lines,
though, by a test of its own for blank ones, so it takes more to see that the bare lines are all
that matters there as well (`Line.Indentation.shows_bare`, `Line.Indentation.ofLine?_bare`). A
source is then read as its bare lines are (`Line.ofSource_eq_bare`), and two sources with the same
bare lines cannot be told apart.
-/

namespace IndentedSass

/-! ## Trimming -/

namespace Text

/-- White space at the end of a text is trimmed whatever stands before it. -/
theorem trim_append {after : Text} (h : ∀ c ∈ after, isSpaceByte c = true) (s : Text) :
    (s ++ after).trim = s.trim := by
  have hs := trimmed_trim s
  obtain ⟨before, rest, hbefore, hrest, heq⟩ := hs.around
  have hafter : Spaces wideSpaces (rest ++ after) := hrest.append (spaces_of_bytes h)
  refine Trimmed.trim_eq ⟨⟨before, rest ++ after, hbefore, hafter, ?_⟩, hs.start, hs.finish⟩
  rw [← List.append_assoc, ← heq]

end Text

namespace Line
open Ascii

/-! ## Bare lines -/

/-- A line without what does not count at its end. -/
def bare (raw : Text) : Text := raw.trimEndWhile isTrailing

theorem getLast?_bare (raw : Text) : ∀ c ∈ (bare raw).getLast?, isTrailing c = false := by
  intro c hc
  rw [bare, Text.trimEndWhile, List.getLast?_reverse] at hc
  have hhead := List.head?_dropWhile_not isTrailing raw.reverse
  rw [Option.mem_def.1 hc] at hhead
  exact hhead

theorem bare_bare (raw : Text) : bare (bare raw) = bare raw :=
  Text.trimEndWhile_of_getLast? (getLast?_bare raw)

theorem bare_append {tail : Text} (h : ∀ c ∈ tail, isTrailing c = true) (s : Text) :
    bare (s ++ tail) = bare s := by
  have hreverse : ∀ c ∈ tail.reverse, isTrailing c = true := fun c hc => h c (List.mem_reverse.1 hc)
  rw [bare, bare, Text.trimEndWhile, Text.trimEndWhile, List.reverse_append,
    List.dropWhile_append_of_pos hreverse]

theorem bare_of_return {raw s : Text} (h : raw = s ∨ raw = s ++ [carriageReturn]) :
    bare raw = bare s := by
  obtain rfl | rfl := h
  · rfl
  · exact bare_append (List.forall_mem_singleton.2 (by decide)) s

theorem map_bare_of_returns {raws bares : List Text}
    (h : List.Forall₂ (fun s t => s = t ∨ s = t ++ [carriageReturn]) raws bares) :
    raws.map bare = bares.map bare := by
  induction h with
  | nil => rfl
  | cons hraw _ ih => rw [List.map_cons, List.map_cons, bare_of_return hraw, ih]

/-- The bare lines of a source, cut at line feeds only. -/
def bareLines (source : Text) : List Text := (Text.splitOn newline source).map bare

theorem map_bare_raws (source : Text) : (raws source).map bare = bareLines source := by
  rw [raws, Text.splitOn_replace]
  exact (map_bare_of_returns (Text.forall₂_dropReturns _)).symm

/-! ## The unit of indentation -/

namespace Indentation

theorem isBlankText_bare (raw : Text) : (bare raw).isBlankText = raw.isBlankText := by
  obtain ⟨tail, hraw, htail⟩ := Text.exists_trimEndWhile isTrailing raw
  rw [← bare] at hraw
  have hspace : ∀ c ∈ tail, Text.isSpaceByte c = true :=
    fun c hc => isSpaceByte_of_isTrailing (htail c hc)
  rw [Text.isBlankText, Text.isBlankText, ← Text.trim_append hspace, ← hraw]

/-- Bare lines are blank exactly where raw ones are, though the test knows more white space than
is taken off. -/
theorem shows_bare (raw : Text) : shows (bare raw) = shows raw := by
  obtain ⟨tail, hraw, htail⟩ := Text.exists_trimEndWhile isTrailing raw
  rw [← bare] at hraw
  rw [shows, shows, isBlankText_bare]
  cases hbare : bare raw with
  | cons c s =>
    rw [hbare] at hraw
    rw [hraw]
    rfl
  | nil =>
    have hblank : raw.isBlankText = true := by
      rw [← isBlankText_bare, hbare]
      rfl
    rw [hblank, Bool.not_true, Bool.false_and, Bool.false_and]

/-- The run of one byte that a line starts with ends before what is taken off. -/
theorem ofLine?_bare {raw : Text} (h : shows raw = true) : ofLine? (bare raw) = ofLine? raw := by
  obtain ⟨tail, hraw, -⟩ := Text.exists_trimEndWhile isTrailing raw
  rw [← bare] at hraw
  rw [← shows_bare] at h
  have hlast := getLast?_bare raw
  cases hbare : bare raw with
  | nil =>
    rw [hbare] at h
    cases h
  | cons c s =>
    rw [hbare] at hraw h hlast
    have hc : isIndent c = true := (Bool.and_eq_true_iff.1 h).2
    have hends : s.dropWhile (· == c) ≠ [] := by
      intro hall
      obtain ⟨d, hd⟩ : ∃ d, (c :: s).getLast? = some d := ⟨_, List.getLast?_cons⟩
      have hdc : d = c := by
        rcases List.mem_cons.1 (List.mem_of_getLast? hd) with hdc | hds
        · exact hdc
        · exact eq_of_beq (List.dropWhile_eq_nil_iff.1 hall d hds)
      have hnot := hlast d hd
      rw [hdc, isTrailing_of_isIndent hc] at hnot
      cases hnot
    have hdrop : (s ++ tail).dropWhile (· == c) = s.dropWhile (· == c) ++ tail := by
      rw [List.dropWhile_append, if_neg (by simpa using hends)]
    have htake : (s ++ tail).takeWhile (· == c) = s.takeWhile (· == c) := by
      have hboth : (s ++ tail).takeWhile (· == c) ++ (s.dropWhile (· == c) ++ tail) =
          s.takeWhile (· == c) ++ (s.dropWhile (· == c) ++ tail) := by
        rw [← hdrop, List.takeWhile_append_dropWhile, hdrop, ← List.append_assoc,
          List.takeWhile_append_dropWhile]
      exact List.append_cancel_right hboth
    rw [hraw, List.cons_append, ofLine?, ofLine?, hdrop, htake, List.head?_append_of_ne_nil _ hends]

end Indentation

/-! ## Reading -/

theorem detect_map_bare (file : Text) (number : Int) (raws : List Text) :
    Indentation.detect file number (raws.map bare) = Indentation.detect file number raws := by
  induction raws generalizing number with
  | nil => rfl
  | cons raw raws ih =>
    rw [List.map_cons, Indentation.detect, Indentation.detect, Indentation.shows_bare, ih]
    split
    · rename_i hshows
      rw [Indentation.ofLine?_bare hshows]
    · rfl

theorem ofRaw_bare (unit : Indentation) (file : Text) (number : Int) (raw : Text) :
    ofRaw unit file number (bare raw) = ofRaw unit file number raw := by
  have htwice := bare_bare raw
  rw [bare, bare] at htwice
  rw [ofRaw, ofRaw, bare, htwice]

theorem ofRaws_map_bare (unit : Indentation) (file : Text) (number : Int) (raws : List Text) :
    ofRaws unit file number (raws.map bare) = ofRaws unit file number raws := by
  induction raws generalizing number with
  | nil => rfl
  | cons raw raws ih => rw [List.map_cons, ofRaws, ofRaws, ofRaw_bare, ih]

/-- **A source is read as its bare lines are.** -/
theorem ofSource_eq_bare (source file : Text) (first : Int) :
    ofSource source file first = (do
      let unit ← Indentation.detect file (firstNumber first) (bareLines source)
      ofRaws unit file (firstNumber first) (bareLines source)) := by
  rw [← map_bare_raws]
  simp only [detect_map_bare, ofRaws_map_bare]
  rfl

/-- A text with a carriage return before every line feed. -/
def withReturns (source : Text) : Text := Text.replace "\n" "\r\n" source

theorem withReturns_cons (c : UInt8) (s : Text) : withReturns (c :: s) =
    (if c = newline then [carriageReturn, newline] else [c]) ++ withReturns s := by
  simp only [withReturns, Text.lineFeed_eq, Text.lineEnd_eq, Text.replace_byte, List.flatMap_cons]

theorem splitOn_withReturns (source : Text) :
    List.Forall₂ (fun s t => s = t ∨ s = t ++ [carriageReturn])
      (Text.splitOn newline (withReturns source)) (Text.splitOn newline source) := by
  induction source with
  | nil => exact .cons (.inl rfl) .nil
  | cons c s ih =>
    rw [withReturns_cons]
    by_cases hc : c = newline
    · subst hc
      have hcut := Text.splitOn_cons (by decide : carriageReturn ≠ newline)
        (Text.splitOn_sep newline (withReturns s))
      rw [if_pos rfl, Text.splitOn_sep]
      show List.Forall₂ _ (Text.splitOn newline (carriageReturn :: newline :: withReturns s)) _
      rw [hcut]
      exact .cons (.inr rfl) ih
    · rw [if_neg hc, List.singleton_append]
      obtain ⟨piece, pieces, hs⟩ := List.exists_cons_of_ne_nil (Text.splitOn_ne_nil newline s)
      obtain ⟨piece', pieces', hs'⟩ :=
        List.exists_cons_of_ne_nil (Text.splitOn_ne_nil newline (withReturns s))
      rw [hs, hs'] at ih
      rw [Text.splitOn_cons hc hs, Text.splitOn_cons hc hs']
      obtain ⟨hpiece, hpieces⟩ := List.forall₂_cons.1 ih
      refine .cons ?_ hpieces
      rw [List.cons_append, List.cons_inj_right, List.cons_inj_right]
      exact hpiece

theorem bareLines_withReturns (source : Text) : bareLines (withReturns source) = bareLines source :=
  map_bare_of_returns (splitOn_withReturns source)

/-- Two sources have the same records or the same fault, whatever their file and first line, and so
the same tree or fault. -/
def ReadAlike (source other : Text) : Prop :=
  ∀ (file : Text) (first : Int), ofSource source file first = ofSource other file first ∧
    ∀ way, Source.parse way source file first = Source.parse way other file first

theorem readAlike_of_bareLines {source other : Text} (h : bareLines source = bareLines other) :
    ReadAlike source other := by
  intro file first
  have hlines : ofSource source file first = ofSource other file first := by
    rw [ofSource_eq_bare, h, ← ofSource_eq_bare]
  refine ⟨hlines, fun way => ?_⟩
  rw [Source.parse, Source.parse, hlines]

/-- **Space at the ends of lines does not matter.** Sources with the same bare lines are read alike,
and so are a source and its form with a carriage return at every line end. -/
theorem trailing_space_ignored :
    (∀ source other : Text, bareLines source = bareLines other → ReadAlike source other) ∧
      ∀ source : Text, ReadAlike (withReturns source) source :=
  ⟨fun _ _ => readAlike_of_bareLines, fun source =>
    readAlike_of_bareLines (bareLines_withReturns source)⟩

/-- The unit of indentation is shown by a line with a tab at its end, after a line of white space
that starts with another byte. -/
theorem trailing_space_ignored_mixed :
    bareLines "a \n \t\r\n\tb: c\t\r\r\n" = bareLines "a\n\n\tb: c\n" ∧
      (∃ lines, ofSource "a\n\n\tb: c\n" [] 1 = .ok lines ∧ lines.map indent = [0, 0, 1, 0]) ∧
      ReadAlike "a \n \t\r\n\tb: c\t\r\r\n" "a\n\n\tb: c\n" := by
  have hbare : bareLines "a \n \t\r\n\tb: c\t\r\r\n" = bareLines "a\n\n\tb: c\n" := by
    decide +kernel
  exact ⟨hbare, ⟨_, rfl, rfl⟩, trailing_space_ignored.1 _ _ hbare⟩

end Line

end IndentedSass
