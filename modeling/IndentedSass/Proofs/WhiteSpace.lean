import IndentedSass.Text.Utf8

/-!
# White space

Trimming works on bytes: it knows the white space characters by their encodings and looks for them
from both ends (`Text.trimmed_trim`). No bytes of a text can be read as white space together with
bytes of the white space around it, so what is left is determined (`Text.trimmed_iff`).
`Text.isSpace_of_isBlankText` ties it to characters: where trimming leaves nothing, every character
of the text has the white space property.
-/

namespace IndentedSass.Text

/-- The code points with the white space property. -/
def isSpacePoint (n : Nat) : Bool :=
  (0x09 ≤ n && n ≤ 0x0d) || n == 0x20 || n == 0x85 || n == 0xa0 || n == 0x1680 ||
    (0x2000 ≤ n && n ≤ 0x200a) || n == 0x2028 || n == 0x2029 || n == 0x202f || n == 0x205f ||
    n == 0x3000

/-- A white space character; a stray byte is none. -/
def Glyph.isSpace : Glyph → Bool
  | .char c => isSpacePoint c.toNat
  | .stray _ => false

/-! ## Stretches of white space -/

/-- A text put together from white space characters, those of several bytes being `wide`. -/
inductive Spaces (wide : List Text) : Text → Prop
  | nil : Spaces wide []
  | byte {c : UInt8} {s : Text} (hc : isSpaceByte c = true) (rest : Spaces wide s) :
    Spaces wide (c :: s)
  | wide {w s : Text} (hw : w ∈ wide) (rest : Spaces wide s) : Spaces wide (w ++ s)

theorem Spaces.single {wide : List Text} {w : Text} (hw : w ∈ wide) : Spaces wide w := by
  have h : Spaces wide (w ++ []) := .wide hw .nil
  rwa [List.append_nil] at h

theorem Spaces.append {wide : List Text} {s t : Text} (hs : Spaces wide s) (ht : Spaces wide t) :
    Spaces wide (s ++ t) := by
  induction hs with
  | nil => exact ht
  | byte hc _ ih => exact .byte hc ih
  | wide hw _ ih =>
    rw [List.append_assoc]
    exact .wide hw ih

theorem Spaces.reverse {wide : List Text} {s : Text} (h : Spaces (wide.map List.reverse) s) :
    Spaces wide s.reverse := by
  induction h with
  | nil => exact .nil
  | byte hc _ ih =>
    rw [List.reverse_cons]
    exact ih.append (.byte hc .nil)
  | wide hmem _ ih =>
    obtain ⟨w, hw, rfl⟩ := List.mem_map.1 hmem
    rw [List.reverse_append, List.reverse_reverse]
    exact ih.append (.single hw)

theorem spaces_of_bytes {wide : List Text} {s : Text} (h : ∀ c ∈ s, isSpaceByte c = true) :
    Spaces wide s := by
  induction s with
  | nil => exact .nil
  | cons c s ih =>
    obtain ⟨hc, hs⟩ := List.forall_mem_cons.1 h
    exact .byte hc (ih hs)

theorem Spaces.forall_mem {wide : List Text} {s : Text} {p : UInt8 → Prop}
    (h : Spaces wide s) (hbyte : ∀ c, isSpaceByte c = true → p c)
    (hwide : ∀ w ∈ wide, ∀ c ∈ w, p c) : ∀ c ∈ s, p c := by
  induction h with
  | nil =>
    intro c hc
    cases hc
  | byte hc _ ih => exact List.forall_mem_cons.2 ⟨hbyte _ hc, ih⟩
  | wide hw _ ih => exact List.forall_mem_append.2 ⟨hwide _ hw, ih⟩

theorem dropSpaces_skip (wide : List Text) (skip : Nat) (s : Text) :
    dropSpaces wide skip s = dropSpaces wide 0 (s.drop skip) := by
  induction s generalizing skip with
  | nil => simp [dropSpaces]
  | cons c s ih =>
    cases skip with
    | zero => rfl
    | succ skip =>
      rw [dropSpaces, ih]
      rfl

theorem dropSpaces_byte {wide : List Text} {c : UInt8} (hc : isSpaceByte c = true) (s : Text) :
    dropSpaces wide 0 (c :: s) = dropSpaces wide 0 s := by
  have htail : spaceTail? wide (c :: s) = some 0 := if_pos hc
  rw [dropSpaces, htail]

theorem dropSpaces_eq_nil {wide : List Text} {s : Text} (h : ∀ c ∈ s, isSpaceByte c = true) :
    dropSpaces wide 0 s = [] := by
  induction s with
  | nil => rfl
  | cons c s ih =>
    obtain ⟨hc, hs⟩ := List.forall_mem_cons.1 h
    rw [dropSpaces_byte hc, ih hs]

theorem dropSpaces_eq_self {wide : List Text} {s : Text} (h : spaceTail? wide s = none) :
    dropSpaces wide 0 s = s := by
  cases s with
  | nil => rfl
  | cons c s => rw [dropSpaces, h]

/-- A white space character at the start of a text, and what follows it. -/
theorem spaceTail?_eq_some {wide : List Text} (hwide : ∀ w ∈ wide, w ≠ []) {c : UInt8} {s : Text}
    {n : Nat} (h : spaceTail? wide (c :: s) = some n) :
    (isSpaceByte c = true ∧ n = 0) ∨ ∃ w ∈ wide, c :: s = w ++ s.drop n := by
  rw [spaceTail?] at h
  split at h
  · rename_i hc
    exact .inl ⟨hc, (Option.some.inj h).symm⟩
  · obtain ⟨w, hfind, rfl⟩ := Option.map_eq_some_iff.1 h
    have hmem := List.mem_of_find?_eq_some hfind
    have hstarts : w.isPrefixOf (c :: s) = true := by simpa using List.find?_some hfind
    obtain ⟨rest, hrest⟩ := List.isPrefixOf_iff_prefix.1 hstarts
    refine .inr ⟨w, hmem, ?_⟩
    cases w with
    | nil => exact absurd rfl (hwide [] hmem)
    | cons d w =>
      obtain ⟨rfl, rfl⟩ := List.cons.inj hrest
      simp

/-- What is dropped is white space. -/
theorem exists_spaces_dropSpaces {wide : List Text} (hwide : ∀ w ∈ wide, w ≠ []) (s : Text) :
    ∃ before, Spaces wide before ∧ s = before ++ dropSpaces wide 0 s := by
  induction hlength : s.length using Nat.strongRecOn generalizing s with
  | ind length ih =>
    subst hlength
    cases s with
    | nil => exact ⟨[], .nil, rfl⟩
    | cons c s =>
      rw [dropSpaces]
      split
      · rename_i n htail
        have hshort : (s.drop n).length < (c :: s).length := by
          rw [List.length_drop, List.length_cons]
          omega
        obtain ⟨before, hbefore, heq⟩ := ih _ hshort _ rfl
        rw [dropSpaces_skip]
        obtain ⟨hc, rfl⟩ | ⟨w, hw, hsplit⟩ := spaceTail?_eq_some hwide htail
        · exact ⟨c :: before, .byte hc hbefore, congrArg (c :: ·) heq⟩
        · refine ⟨w ++ before, .wide hw hbefore, ?_⟩
          rw [hsplit, List.append_assoc, ← heq]
      · exact ⟨[], .nil, rfl⟩

theorem spaces_of_dropSpaces {wide : List Text} (hwide : ∀ w ∈ wide, w ≠ []) {s : Text}
    (h : dropSpaces wide 0 s = []) : Spaces wide s := by
  obtain ⟨before, hbefore, heq⟩ := exists_spaces_dropSpaces hwide s
  rw [h, List.append_nil] at heq
  exact heq ▸ hbefore

/-- What is left after dropping white space starts with none. -/
theorem spaceTail?_dropSpaces {wide : List Text} {skip : Nat} {s t : Text} {c : UInt8}
    (h : dropSpaces wide skip s = c :: t) : spaceTail? wide (c :: t) = none := by
  induction s generalizing skip with
  | nil =>
    rw [dropSpaces] at h
    cases h
  | cons d s ih =>
    cases skip with
    | succ skip => exact ih h
    | zero =>
      rw [dropSpaces] at h
      split at h
      · exact ih h
      · rename_i hnone
        rw [← h]
        exact hnone

/-- A text that starts with white space shows it at once. -/
theorem Spaces.spaceTail?_append_ne_none {wide : List Text} {c : UInt8} {s : Text}
    (h : Spaces wide (c :: s)) (rest : Text) : spaceTail? wide (c :: s ++ rest) ≠ none := by
  generalize hs : c :: s = t at h
  induction h with
  | nil => cases hs
  | byte hc _ _ =>
    cases hs
    simp [spaceTail?, hc]
  | @wide w more hw _ _ =>
    rw [← hs, List.cons_append, spaceTail?]
    split
    · simp
    · have hstarts : w.isPrefixOf (c :: (s ++ rest)) = true := by
        rw [← List.cons_append, hs, List.isPrefixOf_iff_prefix, List.append_assoc]
        exact List.prefix_append w _
      intro hnone
      exact List.find?_eq_none.1 (Option.map_eq_none_iff.1 hnone) w hw hstarts

theorem Spaces.spaceTail?_ne_none {wide : List Text} {c : UInt8} {s : Text}
    (h : Spaces wide (c :: s)) : spaceTail? wide (c :: s) ≠ none := by
  have hself := h.spaceTail?_append_ne_none []
  rwa [List.append_nil] at hself

/-- No white space is left at the start. -/
theorem Spaces.eq_nil_of_dropSpaces {wide : List Text} {b s : Text} (hb : Spaces wide b)
    (h : b <+: dropSpaces wide 0 s) : b = [] := by
  cases b with
  | nil => rfl
  | cons c b =>
    obtain ⟨rest, hrest⟩ := h
    exact absurd (spaceTail?_dropSpaces hrest.symm) (hb.spaceTail?_append_ne_none rest)

theorem wideSpaces_ne_nil : ∀ w ∈ wideSpaces, w ≠ [] := by
  simp [wideSpaces]

theorem reverse_wideSpaces_ne_nil : ∀ w ∈ wideSpaces.map List.reverse, w ≠ [] := by
  simp [wideSpaces]

/-- White space is white space from its end as well. -/
theorem Spaces.backwards {s : Text} (h : Spaces wideSpaces s) :
    Spaces (wideSpaces.map List.reverse) s.reverse := by
  have htwice : (wideSpaces.map List.reverse).map List.reverse = wideSpaces := by
    decide +kernel
  rw [← htwice] at h
  exact h.reverse

/-- `bare` is a text without the white space around it. -/
structure Trimmed (s bare : Text) : Prop where
  around : ∃ before after, Spaces wideSpaces before ∧ Spaces wideSpaces after ∧
    s = before ++ bare ++ after
  start : ∀ b, Spaces wideSpaces b → b <+: bare → b = []
  finish : ∀ b, Spaces wideSpaces b → b <:+ bare → b = []

/-- **Trimming takes white space away, and all of it, at both ends.** -/
theorem trimmed_trim (s : Text) : Trimmed s s.trim := by
  obtain ⟨before, hbefore, hfront⟩ := exists_spaces_dropSpaces wideSpaces_ne_nil s
  obtain ⟨after, hafter, hback⟩ := exists_spaces_dropSpaces reverse_wideSpaces_ne_nil
    (dropSpaces wideSpaces 0 s).reverse
  have hrest : dropSpaces wideSpaces 0 s = s.trim ++ after.reverse := by
    rw [← List.reverse_reverse (dropSpaces wideSpaces 0 s), hback, List.reverse_append]
    rfl
  refine ⟨⟨before, after.reverse, hbefore, hafter.reverse, ?_⟩, ?_, ?_⟩
  · rw [List.append_assoc, ← hrest]
    exact hfront
  · intro b hb hstart
    have hfirst : b <+: dropSpaces wideSpaces 0 s := by
      rw [hrest]
      exact hstart.trans (List.prefix_append _ _)
    exact hb.eq_nil_of_dropSpaces hfirst
  · intro b hb hend
    have hfirst : b.reverse <+: dropSpaces (wideSpaces.map List.reverse) 0
        (dropSpaces wideSpaces 0 s).reverse := by
      rw [← List.reverse_suffix, List.reverse_reverse]
      exact hend
    exact List.reverse_eq_nil_iff.mp (hb.backwards.eq_nil_of_dropSpaces hfirst)

/-! ## What trimming finds -/

section Trimming
variable {wide : List Text} {s item : Text}

/-- The white space characters of several bytes have no byte that is one by itself. -/
def Apart (wide : List Text) : Prop := ∀ w ∈ wide, ∀ c ∈ w, isSpaceByte c = false

/-- Each white space character of several bytes is known by its bytes, whatever follows. -/
structure PrefixFree (wide : List Text) : Prop where
  ne_nil : ∀ w ∈ wide, w ≠ []
  apart : Apart wide
  unique : ∀ w ∈ wide, ∀ w' ∈ wide, w' <+: w → w' = w

namespace PrefixFree
variable (hwide : PrefixFree wide)
include hwide

theorem find?_append {w : Text} (hw : w ∈ wide) (s : Text) :
    (wide.find? fun w' => w'.isPrefixOf (w ++ s)) = some w := by
  have hsome : (wide.find? fun w' => w'.isPrefixOf (w ++ s)).isSome = true :=
    List.find?_isSome.2 ⟨w, hw, List.isPrefixOf_iff_prefix.2 (List.prefix_append w s)⟩
  obtain ⟨w', hfind⟩ := Option.isSome_iff_exists.1 hsome
  have hw' := List.mem_of_find?_eq_some hfind
  have hstarts' : w' <+: w ++ s :=
    List.isPrefixOf_iff_prefix.1 (by simpa using List.find?_some hfind)
  rw [hfind]
  rcases List.prefix_or_prefix_of_prefix hstarts' (List.prefix_append w s) with h | h
  · rw [hwide.unique w hw w' hw' h]
  · rw [hwide.unique w' hw' w hw h]

/-- White space at the start is dropped, whatever follows. -/
theorem dropSpaces_append {b : Text} (hb : Spaces wide b) (s : Text) :
    dropSpaces wide 0 (b ++ s) = dropSpaces wide 0 s := by
  induction hb with
  | nil => rfl
  | byte hc _ ih => rw [List.cons_append, dropSpaces_byte hc, ih]
  | @wide w b hw _ ih =>
    cases w with
    | nil => exact absurd rfl (hwide.ne_nil [] hw)
    | cons c w =>
      have hc : isSpaceByte c = false := hwide.apart _ hw c List.mem_cons_self
      have htail : spaceTail? wide (c :: (w ++ (b ++ s))) = some w.length := by
        rw [spaceTail?, hc, if_neg Bool.false_ne_true, ← List.cons_append, hwide.find?_append hw]
        rfl
      rw [List.append_assoc, List.cons_append, dropSpaces, htail]
      dsimp only
      rw [dropSpaces_skip, List.drop_left, ih]

end PrefixFree

theorem apart_wideSpaces : Apart wideSpaces := by
  have hall : wideSpaces.all (·.all (!isSpaceByte ·)) = true := by decide +kernel
  simpa [Apart] using hall

/-- Whether no text of a list starts another one, as a test. -/
def isPrefixFree (wide : List Text) : Bool :=
  wide.all fun w => wide.all fun w' => !w'.isPrefixOf w || w' == w

theorem eq_of_isPrefixFree (h : isPrefixFree wide = true) :
    ∀ w ∈ wide, ∀ w' ∈ wide, w' <+: w → w' = w := by
  intro w hw w' hw' hstarts
  have hpair := List.all_eq_true.1 (List.all_eq_true.1 h w hw) w' hw'
  rw [List.isPrefixOf_iff_prefix.2 hstarts] at hpair
  simpa using hpair

theorem prefixFree_wideSpaces : PrefixFree wideSpaces where
  ne_nil := wideSpaces_ne_nil
  apart := apart_wideSpaces
  unique := eq_of_isPrefixFree (by decide +kernel)

theorem prefixFree_reverse_wideSpaces : PrefixFree (wideSpaces.map List.reverse) where
  ne_nil := reverse_wideSpaces_ne_nil
  apart := by
    intro w hw c hc
    obtain ⟨w, hmem, rfl⟩ := List.mem_map.1 hw
    exact apart_wideSpaces w hmem c (List.mem_reverse.1 hc)
  unique := eq_of_isPrefixFree (by decide +kernel)

/-- A text that starts with no white space shows none at its start. -/
theorem spaceTail?_eq_none_of_start (hwide : ∀ w ∈ wide, w ≠ [])
    (h : ∀ b, Spaces wide b → b <+: s → b = []) : spaceTail? wide s = none := by
  cases s with
  | nil => rfl
  | cons c s =>
    cases htail : spaceTail? wide (c :: s) with
    | none => rfl
    | some n =>
      obtain ⟨hc, -⟩ | ⟨w, hw, hsplit⟩ := spaceTail?_eq_some hwide htail
      · have hnil := h [c] (.byte hc .nil) (List.prefix_append [c] s)
        cases hnil
      · exact absurd (h w (.single hw) ⟨_, hsplit.symm⟩) (hwide w hw)

/-- White space does not start with a byte from the middle of a character. -/
theorem Spaces.head_not_inner {d : UInt8} (h : Spaces wideSpaces (d :: s)) :
    ∀ w ∈ wideSpaces, d ∉ w.tail := by
  have hheads : (wideSpaces.all fun first => wideSpaces.all fun w =>
      first.head?.all fun c => !w.tail.contains c) = true := by
    decide +kernel
  intro w hw hmem
  generalize hs : d :: s = t at h
  cases h with
  | nil => cases hs
  | byte hc _ =>
    cases hs
    have hnot := apart_wideSpaces w hw d (List.mem_of_mem_tail hmem)
    rw [hc] at hnot
    cases hnot
  | @wide first _ hfirst _ =>
    have hpair := List.all_eq_true.1 (List.all_eq_true.1 hheads first hfirst) w hw
    cases first with
    | nil => exact wideSpaces_ne_nil [] hfirst rfl
    | cons c first =>
      obtain ⟨rfl, -⟩ := List.cons.inj hs
      simp [hmem] at hpair

/-- What an item ends with and the white space after it make no white space together. -/
theorem spaceTail?_append_spaces {after : Text} (hne : item ≠ [])
    (hitem : ∀ b, Spaces wideSpaces b → b <+: item → b = []) (hafter : Spaces wideSpaces after) :
    spaceTail? wideSpaces (item ++ after) = none := by
  cases item with
  | nil => exact absurd rfl hne
  | cons c rest =>
    cases htail : spaceTail? wideSpaces (c :: rest ++ after) with
    | none => rfl
    | some n =>
      obtain ⟨hc, -⟩ | ⟨w, hw, hsplit⟩ := spaceTail?_eq_some wideSpaces_ne_nil htail
      · have hnil := hitem [c] (.byte hc .nil) (List.prefix_append [c] rest)
        cases hnil
      · have hlong : w <+: c :: rest ++ after := ⟨_, hsplit.symm⟩
        have hnot : ¬ w <+: c :: rest := fun hshort =>
          wideSpaces_ne_nil w hw (hitem w (.single hw) hshort)
        -- the character goes on behind the item, where white space would have to start with its
        -- middle
        have hitem' : c :: rest <+: c :: rest ++ after := List.prefix_append (c :: rest) after
        rcases List.prefix_or_prefix_of_prefix hlong hitem' with h | h
        · exact absurd h hnot
        · obtain ⟨u, rfl⟩ := h
          cases u with
          | nil =>
            rw [List.append_nil] at hnot
            exact absurd (List.prefix_refl (c :: rest)) hnot
          | cons d u =>
            obtain ⟨more, rfl⟩ := (List.prefix_append_right_inj _).1 hlong
            exact absurd (by simp) (hafter.head_not_inner _ hw)

/-- **Trimming finds what stands between two stretches of white space.** -/
theorem Trimmed.trim_eq (h : Trimmed s item) : s.trim = item := by
  obtain ⟨before, after, hbefore, hafter, rfl⟩ := h.around
  have hfinish : spaceTail? (wideSpaces.map List.reverse) item.reverse = none := by
    refine spaceTail?_eq_none_of_start reverse_wideSpaces_ne_nil fun b hb hstarts => ?_
    have hend : b.reverse <:+ item := by rwa [← List.reverse_prefix, List.reverse_reverse]
    exact List.reverse_eq_nil_iff.1 (h.finish b.reverse hb.reverse hend)
  have hfront : dropSpaces wideSpaces 0 (before ++ item ++ after) = item ++ after ∨ item = [] ∧
      dropSpaces wideSpaces 0 (before ++ item ++ after) = [] := by
    rw [List.append_assoc, prefixFree_wideSpaces.dropSpaces_append hbefore]
    by_cases hne : item = []
    · refine .inr ⟨hne, ?_⟩
      rw [hne, List.nil_append, ← List.append_nil after,
        prefixFree_wideSpaces.dropSpaces_append hafter]
      rfl
    · exact .inl (dropSpaces_eq_self (spaceTail?_append_spaces hne h.start hafter))
  rw [trim]
  rcases hfront with hfront | ⟨hitem, hfront⟩
  · rw [hfront, List.reverse_append,
      prefixFree_reverse_wideSpaces.dropSpaces_append hafter.backwards,
      dropSpaces_eq_self hfinish, List.reverse_reverse]
  · rw [hfront, hitem]
    rfl

theorem trimmed_iff : Trimmed s item ↔ s.trim = item :=
  ⟨Trimmed.trim_eq, fun h => h ▸ trimmed_trim s⟩

instance (s item : Text) : Decidable (Trimmed s item) := decidable_of_iff _ trimmed_iff.symm

end Trimming

theorem spaces_of_isBlankText {s : Text} (h : s.isBlankText = true) : Spaces wideSpaces s := by
  have hback :
      dropSpaces (wideSpaces.map List.reverse) 0 (dropSpaces wideSpaces 0 s).reverse = [] := by
    simpa [isBlankText, trim] using h
  have hrest := (spaces_of_dropSpaces reverse_wideSpaces_ne_nil hback).reverse
  rw [List.reverse_reverse] at hrest
  -- what the front left over is white space and does not start with any
  cases hfront : dropSpaces wideSpaces 0 s with
  | nil => exact spaces_of_dropSpaces wideSpaces_ne_nil hfront
  | cons c t =>
    rw [hfront] at hrest
    exact absurd (spaceTail?_dropSpaces hfront) hrest.spaceTail?_ne_none

/-! ## Characters -/

theorem glyphs_ascii {c : UInt8} (hc : c < 0x80) (s : Text) :
    glyphs (c :: s) = .char (Char.ofNat c.toNat) :: glyphs s := by
  have hdecode : Utf8.decode? c s = some (c.toNat, 0) := if_pos hc
  rw [glyphs, Utf8.glyphsFrom, hdecode]
  rfl

theorem isSpacePoint_of_isSpaceByte {c : UInt8} (hc : isSpaceByte c = true) :
    c < 0x80 ∧ isSpacePoint (Char.ofNat c.toNat).toNat = true := by
  simp only [isSpaceByte, Ascii.isBlank, Bool.or_eq_true, beq_iff_eq] at hc
  obtain ((((rfl | rfl) | rfl) | rfl) | rfl) | rfl := hc <;> decide

/-- Each of the longer encodings is read as one character, whatever follows it. -/
theorem glyphs_wideSpace {w : Text} (hw : w ∈ wideSpaces) (s : Text) :
    ∃ x : Char, isSpacePoint x.toNat = true ∧ glyphs (w ++ s) = .char x :: glyphs s := by
  revert w
  simp only [wideSpaces, List.forall_mem_cons]
  refine ⟨?_, ?_, ?_, ?_, ?_, ?_, ?_, ?_, ?_, ?_, ?_, ?_, ?_, ?_, ?_, ?_, ?_, ?_, ?_, by simp⟩
  all_goals exact ⟨_, by decide, rfl⟩

/-- **Where trimming leaves nothing there is only white space.** -/
theorem isSpace_of_isBlankText {s : Text} (h : s.isBlankText = true) :
    ∀ g ∈ s.glyphs, g.isSpace = true := by
  have hspaces := spaces_of_isBlankText h
  clear h
  induction hspaces with
  | nil =>
    intro g hg
    cases hg
  | @byte c s hc _ ih =>
    obtain ⟨hascii, hpoint⟩ := isSpacePoint_of_isSpaceByte hc
    rw [glyphs_ascii hascii, List.forall_mem_cons]
    exact ⟨hpoint, ih⟩
  | @wide w s hw _ ih =>
    obtain ⟨x, hpoint, hglyphs⟩ := glyphs_wideSpace hw s
    rw [hglyphs, List.forall_mem_cons]
    exact ⟨hpoint, ih⟩

end IndentedSass.Text
