import IndentedSass.Proofs.StyleAgreement
import IndentedSass.Proofs.WellFormedTrees
import IndentedSass.Proofs.WhiteSpace

/-!
# Where comments end

A comment is put together from the text after its mark and the lines beneath it, and written with a
mark of its own at the end. Of the marks that stand in the source only one is taken away, the one at
the end of the last line. `Source.comment_endsLast_iff` says for which comments that is enough:
those where the source has the mark nowhere else (`Source.EndsOnLast`). Any other comment ends early
when it is written, and what follows the mark is left outside of it (`Source.comments_end_early`).
-/

namespace IndentedSass
open Ascii

/-! ## The closing mark -/

theorem noCommentEnd_nil : NoCommentEnd [] := by
  rintro ⟨before, after, h⟩
  simp at h

theorem noCommentEnd_cons_iff {c : UInt8} {s : Text} :
    NoCommentEnd (c :: s) ↔ NoCommentEnd s ∧ ¬(c = asterisk ∧ s.head? = some slash) := by
  have hstart : [asterisk, slash] <+: c :: s ↔ c = asterisk ∧ s.head? = some slash := by
    cases s with
    | nil => simp
    | cons d s => simp [List.cons_prefix_cons, eq_comm]
  rw [NoCommentEnd, NoCommentEnd, List.infix_cons_iff, hstart]
  tauto

/-- Where two texts meet, a mark can come together from a byte of each. -/
theorem noCommentEnd_append_iff {s t : Text} : NoCommentEnd (s ++ t) ↔
    NoCommentEnd s ∧ NoCommentEnd t ∧ ¬(s.getLast? = some asterisk ∧ t.head? = some slash) := by
  induction s with
  | nil => simp [noCommentEnd_nil]
  | cons c s ih =>
    rw [List.cons_append, noCommentEnd_cons_iff, noCommentEnd_cons_iff, ih]
    cases s with
    | nil => simp [noCommentEnd_nil]
    | cons d s =>
      rw [List.getLast?_cons_cons, List.cons_append, List.head?_cons, List.head?_cons]
      tauto

/-- Elsewhere the texts are looked at one by one. -/
theorem noCommentEnd_append_of_apart {s t : Text}
    (h : s.getLast? ≠ some asterisk ∨ t.head? ≠ some slash) :
    NoCommentEnd (s ++ t) ↔ NoCommentEnd s ∧ NoCommentEnd t := by
  rw [noCommentEnd_append_iff]
  tauto

theorem noCommentEnd_of_not_mem {s : Text} (h : asterisk ∉ s) : NoCommentEnd s :=
  fun hin => h (hin.subset List.mem_cons_self)

/-- No comment ends in a text before the text does. -/
def NoEarlyEnd (s : Text) : Prop :=
  ∀ before after, s = before ++ [asterisk, slash] ++ after → after = []

/-- A comment ends in a text once, where the text does. -/
def EndsLast (s : Text) : Prop := [asterisk, slash] <:+ s ∧ NoEarlyEnd s

theorem noEarlyEnd_append_iff {s : Text} :
    NoEarlyEnd (s ++ [asterisk, slash]) ↔ NoCommentEnd s := by
  constructor
  · rintro hlast ⟨before, after, rfl⟩
    have hnil := hlast before (after ++ [asterisk, slash]) (by simp)
    simp at hnil
  · intro hs before after heq
    -- the two bytes of the mark differ, so two marks in a text do not overlap
    rcases List.eq_nil_or_concat after with rfl | ⟨after, d, rfl⟩
    · rfl
    rcases List.eq_nil_or_concat after with rfl | ⟨after, c, rfl⟩
    · have hmark : s ++ [asterisk] ++ [slash] = before ++ [asterisk] ++ [slash] ++ [d] := by
        simpa using heq
      have hstar := List.append_inj_left' hmark rfl
      have hbyte := List.append_inj_right' hstar rfl
      exact absurd hbyte (by decide)
    · have hmark : s ++ [asterisk, slash] = before ++ [asterisk, slash] ++ after ++ [c, d] := by
        simpa using heq
      have hin := List.append_inj_left' hmark rfl
      exact absurd ⟨before, after, hin.symm⟩ hs

theorem endsLast_append_iff {s : Text} : EndsLast (s ++ [asterisk, slash]) ↔ NoCommentEnd s := by
  rw [EndsLast, noEarlyEnd_append_iff]
  exact and_iff_right (List.suffix_append _ _)

/-! ## Writing comments -/

/-- What stands between the lines keeps their bytes from coming together to a mark. -/
theorem noCommentEnd_join_iff {sep : Text} (hsep : NoCommentEnd sep)
    (hhead : sep.head? ≠ some slash) (hlast : ∀ s : Text, (s ++ sep).getLast? ≠ some asterisk)
    {lines : List Text} :
    NoCommentEnd (Text.join sep lines) ↔ ∀ t ∈ lines, NoCommentEnd t := by
  fun_induction Text.join sep lines with
  | case1 => simp [noCommentEnd_nil]
  | case2 line => simp
  | case3 line next rest ih =>
    rw [List.forall_mem_cons, noCommentEnd_append_of_apart (.inl (hlast line)),
      noCommentEnd_append_of_apart (.inr hhead), ih]
    exact and_congr_left fun _ => and_iff_left hsep

/-- A comment is written with one mark, at its end, exactly when its lines have none. -/
theorem endsLast_comment_iff {indent : Text} (hindent : asterisk ∉ indent) {lines : List Text} :
    EndsLast (Style.comment indent lines) ↔ ∀ t ∈ lines, NoCommentEnd t := by
  have hgap := noCommentEnd_of_not_mem hindent
  have hend : indent.getLast? ≠ some asterisk := fun h => hindent (List.mem_of_getLast? h)
  have hspace : NoCommentEnd [space] := noCommentEnd_of_not_mem (by decide)
  have hstar : NoCommentEnd [asterisk, space] :=
    noCommentEnd_cons_iff.2 ⟨hspace, fun h => absurd h.2 (by decide)⟩
  have hopen : NoCommentEnd (indent ++ [slash, asterisk, space]) :=
    (noCommentEnd_append_of_apart (.inl hend)).2
      ⟨hgap, noCommentEnd_cons_iff.2 ⟨hstar, fun h => absurd h.1 (by decide)⟩⟩
  have hsep : NoCommentEnd (newline :: indent ++ [space, asterisk, space]) :=
    (noCommentEnd_append_of_apart (.inr (by decide))).2
      ⟨noCommentEnd_cons_iff.2 ⟨hgap, fun h => absurd h.1 (by decide)⟩,
        noCommentEnd_cons_iff.2 ⟨hstar, fun h => absurd h.1 (by decide)⟩⟩
  have hlast (s : Text) :
      (s ++ (newline :: indent ++ [space, asterisk, space])).getLast? ≠ some asterisk := by
    rw [← List.append_assoc, List.getLast?_append_of_ne_nil _ (List.cons_ne_nil _ _)]
    decide
  have hwritten : Style.comment indent lines =
      (indent ++ [slash, asterisk, space] ++
        (Text.join (newline :: indent ++ [space, asterisk, space]) lines ++ [space])) ++
          [asterisk, slash] := by
    show indent ++ [slash, asterisk, space] ++
      Text.join (newline :: indent ++ [space, asterisk, space]) lines ++
        [space, asterisk, slash] = _
    simp only [List.append_assoc, List.cons_append, List.nil_append]
  rw [hwritten, endsLast_append_iff,
    noCommentEnd_append_of_apart (.inl (by simp [space, asterisk])),
    noCommentEnd_append_of_apart (t := [space]) (.inr (by decide)),
    noCommentEnd_join_iff hsep (by simp [newline, slash]) hlast]
  exact ⟨fun h => h.2.1, fun h => ⟨hopen, h, hspace⟩⟩

/-! ## Reading comments -/

theorem not_mem_of_spaces {s : Text} (h : Text.Spaces Text.wideSpaces s) :
    asterisk ∉ s ∧ slash ∉ s := by
  have hwide : ∀ w ∈ Text.wideSpaces, asterisk ∉ w ∧ slash ∉ w := by decide +kernel
  have hbytes : ∀ c ∈ s, c ≠ asterisk ∧ c ≠ slash := by
    refine h.forall_mem (fun c hc => ?_) fun w hw c hc => ?_
    · constructor <;> rintro rfl <;> exact absurd hc (by decide)
    · constructor <;> rintro rfl
      · exact (hwide w hw).1 hc
      · exact (hwide w hw).2 hc
  exact ⟨fun hmem => (hbytes _ hmem).1 rfl, fun hmem => (hbytes _ hmem).2 rfl⟩

/-- Trimming takes no part of a mark away, and makes none. -/
theorem noCommentEnd_trim_iff {s : Text} : NoCommentEnd s.trim ↔ NoCommentEnd s := by
  obtain ⟨before, after, hbefore, hafter, heq⟩ := (Text.trimmed_trim s).around
  obtain ⟨hstar, -⟩ := not_mem_of_spaces hbefore
  obtain ⟨hstar', hslash⟩ := not_mem_of_spaces hafter
  have hstart : before.getLast? ≠ some asterisk := fun h => hstar (List.mem_of_getLast? h)
  have hfinish : after.head? ≠ some slash := fun h => hslash (List.mem_of_head? h)
  conv_rhs => rw [heq]
  rw [noCommentEnd_append_of_apart (.inr hfinish), noCommentEnd_append_of_apart (.inl hstart)]
  exact ⟨fun h => ⟨⟨noCommentEnd_of_not_mem hstar, h⟩, noCommentEnd_of_not_mem hstar'⟩,
    fun h => h.1.2⟩

/-- Only a mark at the very end is dropped. -/
theorem noCommentEnd_dropEnd_iff {s : Text} :
    NoCommentEnd (Text.dropEnd "*/" s) ↔ NoEarlyEnd s := by
  have hmark : ("*/" : Text) = [asterisk, slash] := by decide +kernel
  rw [hmark, Text.dropEnd]
  split
  · rename_i hends
    obtain ⟨t, rfl⟩ := List.isSuffixOf_iff_suffix.1 hends
    rw [noEarlyEnd_append_iff]
    simp
  · rename_i hends
    have hnot : ¬ [asterisk, slash] <:+ s := fun h => hends (List.isSuffixOf_iff_suffix.2 h)
    constructor
    · rintro hs before after rfl
      exact absurd ⟨before, after, rfl⟩ hs
    · rintro hearly ⟨before, after, heq⟩
      obtain rfl := hearly before after heq.symm
      exact hnot ⟨before, by simpa using heq⟩

namespace Source

/-- The lines of a comment as they stand in the source, from the text after its mark on. -/
def writtenLines (first : Text) (beneath : List Line) : List Text :=
  first.trim :: beneath.map Line.text

/-- No line before the last has a mark, and the last has one at its end at most. -/
def EndsOnLast (lines : List Text) : Prop :=
  (∀ t ∈ lines.dropLast, NoCommentEnd t) ∧ ∀ t ∈ lines.getLast?, NoEarlyEnd t

theorem endsOnLast_iff {lines : List Text} :
    EndsOnLast lines ↔ ∀ t ∈ lines.dropLast ++
      (lines.getLast?.map fun last => (Text.dropEnd "*/" last).trim).toList, NoCommentEnd t := by
  rw [EndsOnLast, List.forall_mem_append]
  refine and_congr_right fun _ => ?_
  cases lines.getLast? with
  | none => simp
  | some last => simp [noCommentEnd_trim_iff, noCommentEnd_dropEnd_iff]

theorem endsOnLast_nil_cons {next : Text} {more : List Text} :
    EndsOnLast ([] :: next :: more) ↔ EndsOnLast (next :: more) := by
  simp [EndsOnLast, noCommentEnd_nil]

theorem noCommentEnd_commentLines_iff {first : Text} {beneath : List Line} :
    (∀ t ∈ commentLines first beneath, NoCommentEnd t) ↔
      EndsOnLast (writtenLines first beneath) := by
  rw [commentLines, writtenLines]
  split
  · rename_i next more heq
    rw [heq, ← endsOnLast_iff, endsOnLast_nil_cons]
  · exact endsOnLast_iff.symm

/-- **A comment is written with one mark, at its very end, exactly when the source has a mark at the
end of its last line or nowhere.** -/
theorem comment_endsLast_iff {way : PropertySyntax} {text file : Text} {first : Int} {src : Source}
    (h : parse way text file first = .ok src) {pos : Position} {texts : List Text}
    (hcomment : src.Has (.comment pos texts)) {indent : Text} (hindent : asterisk ∉ indent) :
    ∃ lines, Line.ofSource text file first = .ok lines ∧
      ∃ l opened beneath following, l :: (beneath ++ following) <:+ filled lines ∧
        l.position = pos ∧ l.text = slash :: asterisk :: opened ∧ Beneath l beneath following ∧
        (EndsLast (Style.comment indent texts) ↔ EndsOnLast (writtenLines opened beneath)) := by
  rw [parse] at h
  obtain ⟨lines, hlines, h⟩ := Outcome.of_bind_eq_ok h
  obtain ⟨-, l, beneath, following, hsuffix, hpos, hbeneath, opened, hopened, rfl⟩ :=
    every_of_ofLines (fun hl _ => Reading.own_closes hl) h hcomment trivial
  refine ⟨lines, hlines, l, opened, beneath, following, hsuffix, hpos, hopened, hbeneath, ?_⟩
  rw [endsLast_comment_iff hindent, noCommentEnd_commentLines_iff]

/-- A comment in a rule, over two lines, with its mark at the end of the second. -/
theorem comment_endsLast_iff_nested :
    ∃ src, parse .either "a\n /* b\n  c */\n d: e" [] 1 = .ok src ∧
      src.Has (.comment ⟨[], 2, 1⟩ ["b", "c"]) ∧ asterisk ∉ [space, space] ∧
      EndsLast (Style.comment [space, space] ["b", "c"]) ∧
      ∃ lines, Line.ofSource "a\n /* b\n  c */\n d: e" [] 1 = .ok lines ∧
        ∃ l opened beneath following, l :: (beneath ++ following) <:+ filled lines ∧
          l.position = ⟨[], 2, 1⟩ ∧ l.text = slash :: asterisk :: opened ∧
          Beneath l beneath following ∧
          (EndsLast (Style.comment [space, space] ["b", "c"]) ↔
            EndsOnLast (writtenLines opened beneath)) := by
  have hindent : asterisk ∉ [space, space] := by decide
  have hends : EndsLast (Style.comment [space, space] ["b", "c"]) := by
    refine (endsLast_comment_iff hindent).2 fun t ht => noCommentEnd_of_not_mem ?_
    revert t
    decide +kernel
  have hread : ∃ src, parse .either "a\n /* b\n  c */\n d: e" [] 1 = .ok src ∧
      src.body = [.rule ⟨[], 1, 0⟩ [["a"]]
        [.comment ⟨[], 2, 1⟩ ["b", "c"], .property ⟨[], 4, 1⟩ "d" "e" false []]] :=
    ⟨_, rfl, rfl⟩
  obtain ⟨src, hsrc, hbody⟩ := hread
  have hrule : src.Has (.rule ⟨[], 1, 0⟩ [["a"]]
      [.comment ⟨[], 2, 1⟩ ["b", "c"], .property ⟨[], 4, 1⟩ "d" "e" false []]) :=
    .top (hbody ▸ List.mem_cons_self)
  have hcomment : src.Has (.comment ⟨[], 2, 1⟩ ["b", "c"]) := .beneath hrule List.mem_cons_self
  exact ⟨src, hsrc, hcomment, hindent, hends, comment_endsLast_iff hsrc hcomment hindent⟩

/-- Marks inside of a line, on a line before the last, twice at the end, and with a no-break space
behind them are kept, so what follows them is outside of the comment that is written. -/
theorem comments_end_early :
    ∃ src, parse .either "/* a */ b\n/* c */\n d\n/* e */ */\n/* f\n g */\u00a0" [] 1 = .ok src ∧
      src.body = [.comment ⟨[], 1, 0⟩ ["a */ b"], .comment ⟨[], 2, 0⟩ ["c */", "d"],
        .comment ⟨[], 4, 0⟩ ["e */"], .comment ⟨[], 5, 0⟩ ["f", "g */"]] ∧
      ∀ lines ∈ ([["a */ b"], ["c */", "d"], ["e */"], ["f", "g */"]] : List (List Text)),
        ¬ EndsLast (Style.comment [] lines) := by
  have hmarks : ∀ lines ∈ ([["a */ b"], ["c */", "d"], ["e */"], ["f", "g */"]] :
      List (List Text)), ∃ t ∈ lines, [asterisk, slash] <:+: t := by
    decide +kernel
  refine ⟨_, rfl, rfl, fun lines hlines hends => ?_⟩
  obtain ⟨t, ht, hin⟩ := hmarks lines hlines
  exact (endsLast_comment_iff List.not_mem_nil).1 hends t ht hin

end Source

end IndentedSass
