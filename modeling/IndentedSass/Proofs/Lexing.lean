import IndentedSass.Script.Token

/-!
# How the reader of tokens moves on

The reader takes a token off the front of the text, round by round. Each of the functions that
measure a token says how many bytes it takes, and nothing keeps it from saying none: then the
reader would stay where it is for ever. `Token.fits_lexeme` shows that this never happens, and
that no token takes more than there is.

`Token.Reads` gives the rounds as rules, each of which goes on behind the bytes that its token took.
`Token.reads_iff` shows that they always come to an end and that `Token.scan` computes where.

The arguments of a function are parts of its text, so they are shorter than the text that was read
(`Token.Reads.length_argument`).
-/

namespace IndentedSass

namespace Text

theorem length_dropSpaces_le (wide : List Text) (skip : Nat) (s : Text) :
    (dropSpaces wide skip s).length ≤ s.length := by
  induction s generalizing skip with
  | nil => simp [dropSpaces]
  | cons c s ih =>
    cases skip with
    | succ skip =>
      have hrest := ih skip
      simp only [dropSpaces, List.length_cons]
      omega
    | zero =>
      rw [dropSpaces]
      split
      · rename_i skip _
        have hrest := ih skip
        simp only [List.length_cons]
        omega
      · exact Nat.le_refl _

theorem length_trim_le (s : Text) : s.trim.length ≤ s.length := by
  have hfront := length_dropSpaces_le wideSpaces 0 s
  have hback :=
    length_dropSpaces_le (wideSpaces.map List.reverse) 0 (dropSpaces wideSpaces 0 s).reverse
  rw [List.length_reverse] at hback
  rw [trim, List.length_reverse]
  omega

end Text

namespace Script
open Ascii

/-- A piece is made of what is being read and of what is left. The induction is on the latter. -/
theorem length_of_mem_splitFrom {sep : UInt8} {st : SplitState} {s piece : Text}
    (h : piece ∈ splitFrom sep st s) : piece.length ≤ st.piece.length + s.length := by
  induction s generalizing st with
  | nil =>
    rw [splitFrom, List.mem_singleton] at h
    simp [h]
  | cons c s ih =>
    obtain ⟨read, depth, skip⟩ := st
    -- every case but a separator puts the byte into the piece that is being read
    have step : ∀ {depth : Int} {skip : Nat}, piece ∈ splitFrom sep ⟨c :: read, depth, skip⟩ s →
        piece.length ≤ read.length + (c :: s).length := by
      intro depth skip hmem
      have hrest := ih hmem
      simp only [List.length_cons] at hrest ⊢
      omega
    cases skip with
    | succ skip => exact step h
    | zero =>
      rw [splitFrom] at h
      split at h
      · exact step h
      split at h
      · exact step h
      split at h
      · exact step h
      split at h
      · obtain rfl | h := List.mem_cons.1 h
        · simp
        · have hrest := ih h
          simp only [List.length_cons, List.length_nil] at hrest ⊢
          omega
      · exact step h

theorem length_of_mem_splitTopLevel {sep : UInt8} {s piece : Text}
    (h : piece ∈ splitTopLevel sep s) : piece.length ≤ s.length := by
  obtain ⟨raw, hraw, rfl⟩ := List.mem_map.1 h
  have hlength := length_of_mem_splitFrom hraw
  have htrim := Text.length_trim_le raw
  simp only [List.length_nil] at hlength
  omega

/-- The quote that closes a string is within the text. -/
theorem length_of_closingQuote? {q : UInt8} {s : Text} {n : Nat} (h : closingQuote? q s = some n) :
    1 ≤ n ∧ n ≤ s.length := by
  fun_induction closingQuote? q s generalizing n with
  | case1 => cases h
  | case2 c hc => simp_all
  | case3 c hc => cases h
  | case4 c d s hc ih =>
    obtain ⟨m, hm, rfl⟩ := Option.map_eq_some_iff.1 h
    have hrest := ih hm
    simp only [List.length_cons]
    omega
  | case5 c d s hc hq =>
    cases h
    simp
  | case6 c d s hc hq ih =>
    obtain ⟨m, hm, rfl⟩ := Option.map_eq_some_iff.1 h
    have hrest := ih hm
    simp only [List.length_cons] at hrest ⊢
    omega

namespace Token

/-! ## Extents -/

theorem length_takeWhile_le (p : UInt8 → Bool) (s : Text) : (s.takeWhile p).length ≤ s.length :=
  (List.takeWhile_prefix p).length_le

/-- No reader of a lexeme goes beyond the end of the text, neither this one nor those that
follow. -/
theorem dashedLength_le (s : Text) : dashedLength s ≤ s.length := by
  induction s with
  | nil => exact Nat.le_refl 0
  | cons c s ih =>
    rw [dashedLength, List.length_cons]
    split
    · omega
    split
    · omega
    · omega

theorem nameLength_le (s : Text) : nameLength s ≤ s.length := by
  rw [nameLength]
  split
  · exact dashedLength_le s
  · exact Nat.zero_le _

theorem plainIdentLength_le (s : Text) : plainIdentLength s ≤ s.length := by
  cases s with
  | nil => exact Nat.le_refl 0
  | cons c s =>
    have hrest := length_takeWhile_le isIdent s
    rw [plainIdentLength, List.length_cons]
    split
    · omega
    · omega

theorem identLength_le (s : Text) : identLength s ≤ s.length := by
  unfold identLength
  split
  · rename_i rest
    have hrest := plainIdentLength_le rest
    rw [List.length_cons]
    split
    · omega
    · omega
  · exact plainIdentLength_le s

theorem fractionLength_le (s : Text) : fractionLength s ≤ s.length := by
  unfold fractionLength
  split
  · rename_i d rest
    have hrest := length_takeWhile_le isDigit rest
    simp only [List.length_cons]
    split
    · omega
    · omega
  · exact Nat.zero_le _

theorem numberLength_le (s : Text) : numberLength s ≤ s.length := by
  have hwhole := length_takeWhile_le isDigit s
  have hfraction := fractionLength_le (s.drop (s.takeWhile isDigit).length)
  simp only [numberLength]
  generalize (s.takeWhile isDigit).length = whole at hwhole hfraction ⊢
  generalize fractionLength (s.drop whole) = fraction at hfraction ⊢
  have hunit := length_takeWhile_le Number.isUnit (s.drop (whole + fraction))
  simp only [List.length_drop] at hfraction hunit
  split
  · omega
  · omega

/-- Where a number starts there is at least one byte of it. -/
theorem numberLength_pos {s : Text} (h : startsNumber s = true) : 1 ≤ numberLength s := by
  have hdigits : (s.takeWhile isDigit).length +
      fractionLength (s.drop (s.takeWhile isDigit).length) ≠ 0 := by
    unfold startsNumber at h
    split at h
    · rename_i d rest
      have hwhole : (dot :: d :: rest).takeWhile isDigit = [] :=
        List.takeWhile_cons_of_neg (by decide)
      show ((dot :: d :: rest).takeWhile isDigit).length +
        fractionLength ((dot :: d :: rest).drop ((dot :: d :: rest).takeWhile isDigit).length) ≠ 0
      have hfraction : fractionLength (dot :: d :: rest) = (rest.takeWhile isDigit).length + 2 :=
        if_pos h
      rw [hwhole, List.length_nil, List.drop_zero, hfraction]
      omega
    · simp [h]
    · cases h
  simp only [numberLength, if_neg hdigits]
  omega

/-- The parenthesis that closes an argument list is within the text. -/
theorem length_of_closingParen {whole : Text} {depth skip : Nat} {s : Text} {n : Nat}
    (h : closingParen whole depth skip s = .ok n) : 1 ≤ n ∧ n ≤ s.length := by
  have later : ∀ {r : Except Fault Nat} {s : Text} {c : UInt8} {n : Nat},
      (∀ {n}, r = .ok n → 1 ≤ n ∧ n ≤ s.length) → r.map (· + 1) = .ok n →
      1 ≤ n ∧ n ≤ (c :: s).length := by
    intro r s c n ih h
    cases r with
    | error f => cases h
    | ok m =>
      cases h
      have hrest := ih rfl
      simp only [List.length_cons]
      omega
  fun_induction closingParen whole depth skip s generalizing n with
  | case1 => cases h
  | case2 _ _ _ _ ih => exact later ih h
  | case3 => cases h
  | case4 _ _ _ _ _ _ ih => exact later ih h
  | case5 _ _ _ _ _ ih => exact later ih h
  | case6 =>
    cases h
    simp
  | case7 _ _ _ _ _ _ ih => exact later ih h
  | case8 _ _ _ _ _ _ ih => exact later ih h

/-- A sign has at least one byte. -/
theorem length_of_sign? {s : Text} {op : Operator} {n : Nat} (h : sign? s = some (op, n)) :
    1 ≤ n ∧ n ≤ s.length := by
  unfold sign? at h
  split at h
  all_goals
    first
    | cases h
      simp
    | cases h

/-! ## Lexemes -/

/-- Every token takes at least one byte and no more than there are, and the arguments of a function
are shorter than what it takes. -/
structure Lexeme.Fits (l : Lexeme) (s : Text) : Prop where
  pos : 1 ≤ l.size
  le : l.size ≤ s.length
  arguments : ∀ name args, l.token = some (.function name args) → ∀ arg ∈ args, arg.length < l.size

/-- All tokens but functions have no arguments. -/
theorem Lexeme.fits_of_size {l : Lexeme} {s : Text} (hpos : 1 ≤ l.size) (hle : l.size ≤ s.length)
    (htoken : ∀ name args, l.token ≠ some (.function name args)) : l.Fits s :=
  ⟨hpos, hle, fun name args h => absurd h (htoken name args)⟩

theorem fits_numberLexeme {s : Text} {n : Nat} {l : Lexeme} (hpos : 1 ≤ n) (hle : n ≤ s.length)
    (h : numberLexeme s n = .ok l) : l.Fits s := by
  rw [numberLexeme] at h
  cases hnumber : Number.ofText (s.take n) with
  | error f =>
    rw [hnumber] at h
    cases h
  | ok v =>
    rw [hnumber] at h
    cases h
    exact Lexeme.fits_of_size hpos hle (by simp)

theorem fits_colourLexeme {c : UInt8} {s : Text} {l : Lexeme}
    (h : colourLexeme (c :: s) = .ok l) : l.Fits (c :: s) := by
  have hle := length_takeWhile_le isWord s
  simp only [colourLexeme, List.drop_succ_cons, List.drop_zero] at h
  split at h
  · cases h
    exact Lexeme.fits_of_size (Nat.le_add_left ..) (by simpa using hle) (by simp)
  · cases h

theorem fits_stringLexeme {s : Text} {l : Lexeme} (h : stringLexeme s = .ok l) : l.Fits s := by
  rw [stringLexeme] at h
  split at h
  · rename_i n hn
    cases h
    cases s with
    | nil => cases hn
    | cons q s =>
      obtain ⟨m, hm, rfl⟩ := Option.map_eq_some_iff.1 hn
      have hlength := length_of_closingQuote? hm
      exact Lexeme.fits_of_size (Nat.le_add_left ..) (by simpa using hlength.2) (by simp)
  · cases h

theorem fits_variableLexeme (c : UInt8) (s : Text) : (variableLexeme c s).Fits (c :: s) := by
  have hle := nameLength_le s
  simp only [variableLexeme]
  split
  · exact Lexeme.fits_of_size (Nat.le_add_left ..) (by simpa using hle) (by simp)
  · exact Lexeme.fits_of_size (Nat.le_add_left ..) (by simpa using hle) (by simp)

theorem length_of_mem_arguments {inner arg : Text} (h : arg ∈ arguments inner) :
    arg.length ≤ inner.length := by
  rw [arguments] at h
  split at h
  · cases h
  · exact length_of_mem_splitTopLevel h

/-- A word may be a call, whose arguments are shorter than the text by the parentheses at least. -/
theorem fits_wordLexeme {s : Text} {n : Nat} {l : Lexeme} (hpos : 1 ≤ n) (hle : n ≤ s.length)
    (h : wordLexeme s n = .ok l) : l.Fits s := by
  simp only [wordLexeme] at h
  split at h
  · cases h
    exact Lexeme.fits_of_size hpos hle (by simp)
  · rename_i rest _ hrest
    cases hclose : closingParen (Ascii.lparen :: rest) 0 0 rest with
    | error f =>
      rw [hclose] at h
      cases h
    | ok size =>
      rw [hclose] at h
      cases h
      have hsize := length_of_closingParen hclose
      have hlength := congrArg List.length hrest
      simp only [List.length_drop, List.length_cons] at hlength
      refine ⟨by simp, by simp only; omega, ?_⟩
      intro name args htoken arg harg
      cases htoken
      have hinner := length_of_mem_arguments harg
      simp only [List.length_take] at hinner
      simp only
      omega
  · cases h
    exact Lexeme.fits_of_size hpos hle (by simp)

theorem fits_signLexeme {expectOperand : Bool} {s : Text} {l : Lexeme}
    (h : signLexeme expectOperand s = .ok l) : l.Fits s := by
  rw [signLexeme] at h
  split at h
  · cases h
  · rename_i n hsign
    have hlength := length_of_sign? hsign
    cases h
    exact Lexeme.fits_of_size hlength.1 hlength.2 (by simp)
  · rename_i n hsign
    have hlength := length_of_sign? hsign
    cases h
    refine Lexeme.fits_of_size hlength.1 hlength.2 ?_
    intro name args
    cases expectOperand <;> simp
  · rename_i op n _ _ hsign
    have hlength := length_of_sign? hsign
    cases h
    exact Lexeme.fits_of_size hlength.1 hlength.2 (by simp)

/-- **The reader takes at least one byte in every round**, whatever the text and whatever came
before. -/
theorem fits_lexeme {expectOperand free : Bool} {c : UInt8} {s : Text} {l : Lexeme}
    (h : lexeme expectOperand free c s = .ok l) : l.Fits (c :: s) := by
  rw [lexeme] at h
  split at h
  · rename_i hstarts
    exact fits_numberLexeme (numberLength_pos hstarts) (numberLength_le _) h
  split at h
  · refine fits_numberLexeme (Nat.le_add_left ..) ?_ h
    simpa using numberLength_le s
  split at h
  · exact fits_colourLexeme h
  split at h
  · exact fits_stringLexeme h
  split at h
  · cases h
    exact fits_variableLexeme c s
  split at h
  · rename_i hident
    refine fits_wordLexeme ?_ (identLength_le _) h
    simp only [Bool.and_eq_true, decide_eq_true_eq] at hident
    exact hident.1
  split at h
  · cases h
    exact Lexeme.fits_of_size (Nat.le_refl 1) (by simp) (by simp)
  split at h
  · cases h
    exact Lexeme.fits_of_size (Nat.le_refl 1) (by simp) (by simp)
  · exact fits_signLexeme h

/-! ## Rounds -/

/-- Reading goes on round by round: over a gap, or behind the token that starts the text. A round
that took no byte could never end. -/
inductive Reads : (expectOperand gap : Bool) → Text → Except Fault (List Token) → Prop
  | finish (expectOperand gap : Bool) : Reads expectOperand gap [] (.ok [])
  | gap {expectOperand gap : Bool} {c : UInt8} {s : Text} {r : Except Fault (List Token)}
    (hgap : isGap c = true) (rest : Reads expectOperand true s r) :
    Reads expectOperand gap (c :: s) r
  | fault {expectOperand gap : Bool} {c : UInt8} {s : Text} {f : Fault} (hgap : isGap c = false)
    (hlexeme : lexeme expectOperand (expectOperand || gap) c s = .error f) :
    Reads expectOperand gap (c :: s) (.error f)
  | pass {expectOperand gap : Bool} {c : UInt8} {s : Text} {n : Nat}
    {r : Except Fault (List Token)} (hgap : isGap c = false)
    (hlexeme : lexeme expectOperand (expectOperand || gap) c s = .ok ⟨none, n⟩)
    (rest : Reads expectOperand false ((c :: s).drop n) r) : Reads expectOperand gap (c :: s) r
  | take {expectOperand gap : Bool} {c : UInt8} {s : Text} {t : Token} {n : Nat}
    {r : Except Fault (List Token)} (hgap : isGap c = false)
    (hlexeme : lexeme expectOperand (expectOperand || gap) c s = .ok ⟨some t, n⟩)
    (rest : Reads t.expectsOperand false ((c :: s).drop n) r) :
    Reads expectOperand gap (c :: s) (r.map (t :: ·))

/-- Bytes that a lexeme has taken are skipped before the next one is read. -/
theorem scan_skip (expectOperand gap : Bool) (skip : Nat) (s : Text) :
    scan expectOperand gap skip s = scan expectOperand gap 0 (s.drop skip) := by
  induction s generalizing skip with
  | nil => simp [scan]
  | cons c s ih =>
    cases skip with
    | zero => rfl
    | succ skip =>
      rw [scan, ih]
      rfl

/-- The bytes of a token are passed one by one. -/
theorem scan_behind {expectOperand gap : Bool} {c : UInt8} {s : Text} {n : Nat} (hpos : 1 ≤ n) :
    scan expectOperand gap (n - 1) s = scan expectOperand gap 0 ((c :: s).drop n) := by
  obtain ⟨m, rfl⟩ := Nat.exists_eq_add_of_le' hpos
  rw [Nat.add_sub_cancel, scan_skip, List.drop_succ_cons]

/-- The rules allow no other outcome. The induction is on the derivation. -/
theorem Reads.eq_scan {expectOperand gap : Bool} {s : Text} {r : Except Fault (List Token)}
    (h : Reads expectOperand gap s r) : r = scan expectOperand gap 0 s := by
  induction h with
  | finish => rfl
  | gap hgap _ ih => rw [scan, if_pos hgap, ih]
  | fault hgap hlexeme => simp [scan, hgap, hlexeme]
  | @pass _ _ c s n _ hgap hlexeme _ ih =>
    have hpos := (fits_lexeme hlexeme).pos
    simp only [scan, hgap, hlexeme, Bool.false_eq_true, if_false]
    rw [scan_behind hpos, ih]
  | @take _ _ c s t n _ hgap hlexeme _ ih =>
    have hpos := (fits_lexeme hlexeme).pos
    simp only [scan, hgap, hlexeme, Bool.false_eq_true, if_false]
    rw [scan_behind hpos, ih]

/-- The rounds come to an end, since every one of them leaves a shorter text. -/
theorem reads_scan (expectOperand gap : Bool) (s : Text) :
    Reads expectOperand gap s (scan expectOperand gap 0 s) := by
  induction hlength : s.length using Nat.strongRecOn generalizing expectOperand gap s with
  | ind length ih =>
    subst hlength
    cases s with
    | nil => exact .finish _ _
    | cons c s =>
      have later : ∀ (expectOperand gap : Bool) (n : Nat), 1 ≤ n →
          Reads expectOperand gap ((c :: s).drop n) (scan expectOperand gap (n - 1) s) := by
        intro expectOperand gap n hpos
        rw [scan_behind hpos]
        refine ih _ ?_ expectOperand gap _ rfl
        simp only [List.length_drop, List.length_cons]
        omega
      rw [scan]
      by_cases hgap : isGap c = true
      · rw [if_pos hgap]
        exact .gap hgap (ih s.length (by simp) _ _ s rfl)
      · rw [if_neg hgap]
        rw [Bool.not_eq_true] at hgap
        cases hlexeme : lexeme expectOperand (expectOperand || gap) c s with
        | error f => exact .fault hgap hlexeme
        | ok l =>
          have hpos := (fits_lexeme hlexeme).pos
          obtain ⟨token, n⟩ := l
          cases token with
          | none => exact .pass hgap hlexeme (later _ _ n hpos)
          | some t => exact .take hgap hlexeme (later _ _ n hpos)

theorem reads_iff {expectOperand gap : Bool} {s : Text} {r : Except Fault (List Token)} :
    Reads expectOperand gap s r ↔ r = scan expectOperand gap 0 s := by
  constructor
  · exact Reads.eq_scan
  · rintro rfl
    exact reads_scan expectOperand gap s

/-- **The arguments of a function are shorter than the text it was read from.** -/
theorem Reads.length_argument {expectOperand gap : Bool} {s : Text} {ts : List Token}
    (h : Reads expectOperand gap s (.ok ts)) {name : Text} {args : List Text} {arg : Text}
    (ht : .function name args ∈ ts) (harg : arg ∈ args) : arg.length < s.length := by
  generalize hr : Except.ok ts = r at h
  induction h generalizing ts with
  | finish =>
    cases hr
    cases ht
  | gap _ _ ih =>
    have hrest := ih ht hr
    simp only [List.length_cons]
    omega
  | fault => cases hr
  | pass _ _ _ ih =>
    have hrest := ih ht hr
    rw [List.length_drop] at hrest
    omega
  | @take _ _ c s t n r _ hlexeme _ ih =>
    have hfits := fits_lexeme hlexeme
    cases r with
    | error f => cases hr
    | ok more =>
      cases hr
      obtain rfl | hmore := List.mem_cons.1 ht
      · have hshort := hfits.arguments name args rfl arg harg
        have hle := hfits.le
        omega
      · have hrest := ih hmore rfl
        rw [List.length_drop] at hrest
        omega

end Token

end Script

end IndentedSass
