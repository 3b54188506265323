import IndentedSass.Text

/-!
# Pieces of texts

Cutting a text at a separator and joining pieces undo each other, and both go over to texts that are
put together from parts.
-/

namespace IndentedSass.Text
variable {sep : UInt8} {s t e : Text}

theorem splitOn_ne_nil (sep : UInt8) (s : Text) : splitOn sep s ≠ [] := by
  cases s with
  | nil => exact List.cons_ne_nil _ _
  | cons c s =>
    rw [splitOn]
    split
    · exact List.cons_ne_nil _ _
    · split <;> exact List.cons_ne_nil _ _

/-- Cutting a text and joining the pieces again gives the text back. -/
theorem join_splitOn (sep : UInt8) (s : Text) : join [sep] (splitOn sep s) = s := by
  induction s with
  | nil => rfl
  | cons c s ih =>
    rw [splitOn]
    cases hpieces : splitOn sep s with
    | nil => exact absurd hpieces (splitOn_ne_nil sep s)
    | cons piece rest =>
      rw [hpieces] at ih
      dsimp only
      split
      · rename_i hsep
        rw [join, ih, hsep]
        rfl
      · cases rest with
        | nil =>
          rw [join] at ih ⊢
          rw [ih]
        | cons next rest =>
          rw [join] at ih ⊢
          rw [← ih]
          rfl

theorem splitOn_append (sep : UInt8) (s t : Text) :
    splitOn sep (s ++ sep :: t) = splitOn sep s ++ splitOn sep t := by
  induction s with
  | nil =>
    rw [List.nil_append, splitOn]
    cases hpieces : splitOn sep t with
    | nil => exact absurd hpieces (splitOn_ne_nil sep t)
    | cons piece rest => simp [splitOn, hpieces]
  | cons c s ih =>
    rw [List.cons_append, splitOn, splitOn, ih]
    cases hpieces : splitOn sep s with
    | nil => exact absurd hpieces (splitOn_ne_nil sep s)
    | cons piece rest =>
      simp only [List.cons_append]
      split <;> rfl

theorem splitOn_of_not_mem (h : sep ∉ s) : splitOn sep s = [s] := by
  induction s with
  | nil => rfl
  | cons c s ih =>
    rw [List.mem_cons, not_or] at h
    rw [splitOn, ih h.2]
    exact if_neg (Ne.symm h.1)

theorem not_mem_of_mem_splitOn (h : e ∈ splitOn sep s) : sep ∉ e := by
  induction s generalizing e with
  | nil =>
    rw [splitOn, List.mem_singleton] at h
    rw [h]
    exact List.not_mem_nil
  | cons c s ih =>
    rw [splitOn] at h
    cases hpieces : splitOn sep s with
    | nil => exact absurd hpieces (splitOn_ne_nil sep s)
    | cons piece rest =>
      rw [hpieces] at h ih
      dsimp only at h
      split at h
      · rcases List.mem_cons.mp h with rfl | h
        · exact List.not_mem_nil
        · exact ih h
      · rename_i hc
        rcases List.mem_cons.mp h with rfl | h
        · rw [List.mem_cons, not_or]
          exact ⟨Ne.symm hc, ih List.mem_cons_self⟩
        · exact ih (List.mem_cons_of_mem _ h)

/-- An ending without the separator is an ending of the last piece. -/
theorem exists_last_of_suffix (hs : sep ∉ s) (h : s <:+ t) :
    ∃ before e, splitOn sep t = before ++ [e] ∧ s <:+ e := by
  obtain ⟨head, rfl⟩ := h
  induction head with
  | nil => exact ⟨[], s, splitOn_of_not_mem hs, List.suffix_refl s⟩
  | cons c head ih =>
    obtain ⟨before, e, hpieces, hsuffix⟩ := ih
    rw [List.cons_append, splitOn, hpieces]
    cases before with
    | nil =>
      dsimp only [List.nil_append]
      split
      · exact ⟨[[]], e, rfl, hsuffix⟩
      · exact ⟨[], c :: e, rfl, hsuffix.trans (List.suffix_cons c e)⟩
    | cons piece before =>
      dsimp only [List.cons_append]
      split
      · exact ⟨[] :: piece :: before, e, rfl, hsuffix⟩
      · exact ⟨(c :: piece) :: before, e, rfl, hsuffix⟩

theorem join_cons (sep s : Text) {rest : List Text} (h : rest ≠ []) :
    join sep (s :: rest) = s ++ sep ++ join sep rest := by
  cases rest with
  | nil => exact absurd rfl h
  | cons t rest => rfl

theorem join_append (sep : Text) {before after : List Text} (hbefore : before ≠ [])
    (hafter : after ≠ []) :
    join sep (before ++ after) = join sep before ++ sep ++ join sep after := by
  induction before with
  | nil => exact absurd rfl hbefore
  | cons s before ih =>
    cases before with
    | nil => exact join_cons sep s hafter
    | cons t before =>
      have hne : t :: before ≠ [] := List.cons_ne_nil t before
      rw [List.cons_append, join_cons sep s (by simp), ih hne, join_cons sep s hne]
      simp only [List.append_assoc]

theorem splitOn_join {pieces : List Text} (hne : pieces ≠ [])
    (h : ∀ e ∈ pieces, sep ∉ e) : splitOn sep (join [sep] pieces) = pieces := by
  induction pieces with
  | nil => exact absurd rfl hne
  | cons s pieces ih =>
    obtain ⟨hs, hrest⟩ := List.forall_mem_cons.mp h
    cases pieces with
    | nil => exact splitOn_of_not_mem hs
    | cons t pieces =>
      have hne' : t :: pieces ≠ [] := List.cons_ne_nil t pieces
      rw [join_cons [sep] s hne', List.append_assoc, List.singleton_append, splitOn_append,
        splitOn_of_not_mem hs, ih hne' hrest]
      rfl

end IndentedSass.Text
