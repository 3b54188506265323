import IndentedSass.Expand.Selector
import IndentedSass.Proofs.QuotedStrings

/-!
# Which ampersands stand for the parent

Everywhere else in the language a quoted string is what `Script.quotedLength?` measures: delimited
by quotes or apostrophes, with backslashes that protect the byte after them. Selectors are resolved
by a rule of their own. An ampersand stands for the parent if the number of double quotes before it
is even, whatever else those quotes belong to.

A reading of a selector says of each ampersand whether it is a reference (`Part`). `byParity` and
`byStrings` are the readings of the two rules. `resolve` follows the first, and therefore the second
only where both are the same (`resolve_follows_parity`): on plain selectors they are, but an
apostrophed string, an escaped quote or an open one tells them apart.
-/

namespace IndentedSass.Selector
open Ascii Script

/-- A byte of a selector that stays, or a reference to the parent. -/
inductive Part
  | byte (c : UInt8)
  | parent
  deriving DecidableEq

/-- A selector with a text for its references. -/
def fill (parent : Text) : List Part → Text
  | [] => []
  | .byte c :: parts => c :: fill parent parts
  | .parent :: parts => parent ++ fill parent parts

@[simp] theorem fill_nil (parent : Text) : fill parent [] = [] := rfl

@[simp] theorem fill_byte (parent : Text) (c : UInt8) (parts : List Part) :
    fill parent (.byte c :: parts) = c :: fill parent parts := rfl

@[simp] theorem fill_parent (parent : Text) (parts : List Part) :
    fill parent (.parent :: parts) = parent ++ fill parent parts := rfl

/-- Two fillings tell readings apart: no byte is both an ampersand and a space. -/
theorem fill_injective {parts parts' : List Part}
    (hampersand : fill [ampersand] parts = fill [ampersand] parts')
    (hspace : fill [space] parts = fill [space] parts') : parts = parts' := by
  induction parts generalizing parts' with
  | nil =>
    cases parts' with
    | nil => rfl
    | cons part parts' => cases part <;> simp at hampersand
  | cons part parts ih =>
    cases parts' with
    | nil => cases part <;> simp at hampersand
    | cons part' parts' =>
      have hne : ampersand ≠ space := by decide
      cases part <;> cases part' <;> simp at hampersand hspace
      · rw [hampersand.1, ih hampersand.2 hspace.2]
      · exact absurd (hampersand.1.symm.trans hspace.1) hne
      · exact absurd (hampersand.1.trans hspace.1.symm) hne
      · rw [ih hampersand hspace]

/-! ## What it is to follow a reading -/

/-- `s` is resolved as `parts` has it. -/
structure Follows (parts : List Part) (s : Text) : Prop where
  /-- Each parent is put in for the references. -/
  substitutes : .parent ∈ parts → ∀ parents, parents ≠ [] →
    resolve parents s = .ok (parents.map fun parent => fill parent parts)
  /-- Without references, `s` is put behind each parent. -/
  descends : .parent ∉ parts → ∀ parents, parents ≠ [] →
    resolve parents s = .ok (parents.map fun parent => parent ++ space :: s)
  /-- A reference needs a parent. -/
  raises : .parent ∈ parts → resolve [] s = .error (.of .noParentSelector
    ("cannot use & in " ++ s.quoted ++ " without a parent selector"))
  stands : .parent ∉ parts → resolve [] s = .ok [s]

theorem fill_of_not_mem {parts : List Part} (h : .parent ∉ parts) (parent other : Text) :
    fill parent parts = fill other parts := by
  induction parts with
  | nil => rfl
  | cons part parts ih =>
    cases part with
    | byte c => rw [fill_byte, fill_byte, ih fun hmem => h (List.mem_cons_of_mem _ hmem)]
    | parent => exact absurd List.mem_cons_self h

/-- A selector follows one reading only. -/
theorem Follows.unique {parts parts' : List Part} {s : Text} (h : Follows parts s)
    (h' : Follows parts' s) (hs : fill [ampersand] parts = s) (hs' : fill [ampersand] parts' = s) :
    parts = parts' := by
  have hsame : .parent ∈ parts ↔ .parent ∈ parts' := by
    constructor
    · intro hmem
      refine Decidable.byContradiction fun hnot => ?_
      exact absurd ((h.raises hmem).symm.trans (h'.stands hnot)) (by simp)
    · intro hmem
      refine Decidable.byContradiction fun hnot => ?_
      exact absurd ((h'.raises hmem).symm.trans (h.stands hnot)) (by simp)
  refine fill_injective (hs.trans hs'.symm) ?_
  by_cases hmem : .parent ∈ parts
  · have hfill := (h.substitutes hmem [[space]] (by simp)).symm.trans
      (h'.substitutes (hsame.1 hmem) [[space]] (by simp))
    simpa using hfill
  · rw [fill_of_not_mem hmem [space] [ampersand], hs,
      fill_of_not_mem (fun h => hmem (hsame.2 h)) [space] [ampersand], hs']

/-! ## The two readings -/

/-- The references are the ampersands with an even number of double quotes before them, when there
were `n` before the text. -/
def byParity (n : Nat) (s : Text) : List Part :=
  s.mapIdx fun i c =>
    if c = ampersand ∧ (n + (s.take i).count quote) % 2 = 0 then .parent else .byte c

/-- The references are the ampersands outside of quoted strings, when a string goes on for `skip`
bytes. A quote that is not closed is a byte like any other. -/
def byStrings : (skip : Nat) → Text → List Part
  | _, [] => []
  | skip + 1, c :: s => .byte c :: byStrings skip s
  | 0, c :: s =>
    if c = ampersand then .parent :: byStrings 0 s
    else if isQuote c then .byte c :: byStrings ((closingQuote? c s).getD 0) s
    else .byte c :: byStrings 0 s

@[simp] theorem byParity_nil (n : Nat) : byParity n [] = [] := rfl

theorem byParity_cons (n : Nat) (c : UInt8) (s : Text) :
    byParity n (c :: s) = (if c = ampersand ∧ n % 2 = 0 then .parent else .byte c) ::
      byParity (if c = quote then n + 1 else n) s := by
  rw [byParity, List.mapIdx_cons, byParity]
  congr 1
  congr 1
  funext i d
  by_cases hc : c = quote
  · simp [hc, Nat.add_assoc, Nat.add_comm 1]
  · simp [hc]

theorem fill_byParity (n : Nat) (s : Text) : fill [ampersand] (byParity n s) = s := by
  induction s generalizing n with
  | nil => rfl
  | cons c s ih =>
    rw [byParity_cons]
    by_cases hc : c = ampersand ∧ n % 2 = 0
    · rw [if_pos hc, fill_parent, ih, hc.1]
      rfl
    · rw [if_neg hc, fill_byte, ih]

theorem fill_byStrings (skip : Nat) (s : Text) : fill [ampersand] (byStrings skip s) = s := by
  fun_induction byStrings skip s with
  | case1 => rfl
  | case2 skip c s ih => rw [fill_byte, ih]
  | case3 s ih => rw [fill_parent, ih]; rfl
  | case4 c s hc hquote ih => rw [fill_byte, ih]
  | case5 c s hc hquote ih => rw [fill_byte, ih]

/-! ## Resolving follows the parity -/

theorem odd_succ (n : Nat) : (((n + 1) % 2 == 1) : Bool) = !(n % 2 == 1) := by
  rcases Nat.mod_two_eq_zero_or_one n with h | h <;> simp [Nat.add_mod, h]

/-- The scan for references and the one that replaces them agree with the parity, and so with each
other. -/
theorem scans_byParity (n : Nat) (s : Text) :
    (hasParentRef (n % 2 == 1) s = true ↔ .parent ∈ byParity n s) ∧
      ∀ parent, replaceParentRef parent (n % 2 == 1) s = fill parent (byParity n s) := by
  induction s generalizing n with
  | nil => simp [hasParentRef, replaceParentRef]
  | cons c s ih =>
    simp only [byParity_cons, hasParentRef, replaceParentRef, beq_iff_eq]
    by_cases hquote : c = quote
    · subst hquote
      have hne : quote ≠ ampersand := by decide
      simp [← odd_succ, ih, hne]
    · simp only [if_neg hquote]
      by_cases href : c = ampersand ∧ n % 2 = 0
      · have hread : (c == ampersand && !(n % 2 == 1)) = true := by simp [href]
        rw [hread, if_pos href]
        simp [ih]
      · have hread : (c == ampersand && !(n % 2 == 1)) = false := by simpa using href
        rw [hread, if_neg href]
        simp [ih]

/-- Resolving follows the parity of the double quotes. -/
theorem follows_byParity (s : Text) : Follows (byParity 0 s) s where
  substitutes href parents hparents := by
    have hhas : hasParentRef false s = true := (scans_byParity 0 s).1.2 href
    rw [resolve, if_pos hhas, if_neg (by simpa using hparents)]
    simp only [← (scans_byParity 0 s).2]
    rfl
  descends href parents hparents := by
    have hhas : ¬hasParentRef false s = true := fun h => href ((scans_byParity 0 s).1.1 h)
    rw [resolve, if_neg hhas, if_neg (by simpa using hparents)]
  raises href := by
    have hhas : hasParentRef false s = true := (scans_byParity 0 s).1.2 href
    rw [resolve, if_pos hhas]
    rfl
  stands href := by
    have hhas : ¬hasParentRef false s = true := fun h => href ((scans_byParity 0 s).1.1 h)
    rw [resolve, if_neg hhas]
    rfl

/-! ## Where the readings agree -/

theorem follows_byStrings_iff (s : Text) :
    Follows (byStrings 0 s) s ↔ byParity 0 s = byStrings 0 s := by
  constructor
  · intro hstrings
    exact (follows_byParity s).unique hstrings (fill_byParity 0 s) (fill_byStrings 0 s)
  · intro hsame
    exact hsame ▸ follows_byParity s

/-- Without apostrophes and backslashes the double quotes take turns to open and to close. After an
even number of them no string is open, after an odd number one is, and it ends at the next. -/
theorem byParity_eq_byStrings {s : Text} (hapostrophe : apostrophe ∉ s) (hbackslash : backslash ∉ s)
    (n : Nat) (heven : (n + s.count quote) % 2 = 0) :
    (n % 2 = 0 → byParity n s = byStrings 0 s) ∧
      (n % 2 = 1 → ∃ m, closingQuote? quote s = some m ∧ byParity n s = byStrings m s) := by
  induction s generalizing n with
  | nil =>
    refine ⟨fun _ => rfl, fun hodd => ?_⟩
    simp at heven
    omega
  | cons c s ih =>
    obtain ⟨hc, hs⟩ : apostrophe ≠ c ∧ apostrophe ∉ s := by simpa using hapostrophe
    obtain ⟨hc', hs'⟩ : backslash ≠ c ∧ backslash ∉ s := by simpa using hbackslash
    by_cases hquote : c = quote
    · subst hquote
      have hne : quote ≠ ampersand := by decide
      obtain ⟨hoff, hon⟩ := ih hs hs' (n + 1) (by simp at heven; omega)
      constructor
      · intro hn
        obtain ⟨m, hm, hrest⟩ := hon (by omega)
        simp [byParity_cons, byStrings, hne, isQuote, hm, hrest]
      · intro hn
        refine ⟨1, closingQuote?_close (by decide) s, ?_⟩
        simp [byParity_cons, byStrings, hne, hoff (by omega)]
    · obtain ⟨hoff, hon⟩ := ih hs hs' n (by simpa [hquote] using heven)
      have hplain : isQuote c = false := by simp [isQuote, hquote, hc.symm]
      constructor
      · intro hn
        rw [byParity_cons, if_neg hquote, hoff hn, byStrings]
        by_cases href : c = ampersand <;> simp [href, hn, hplain]
      · intro hn
        obtain ⟨m, hm, hrest⟩ := hon hn
        refine ⟨m + 1, ?_, ?_⟩
        · rw [closingQuote?_plain hc'.symm hquote, hm]
          rfl
        · simp [byParity_cons, byStrings, hquote, hn, hrest]

/-- **Parent references are told by the parity of double quotes**, so a selector is resolved by its
quoted strings if and only if these say the same. They do if the strings are double quoted, closed
and free of apostrophes and backslashes. -/
theorem resolve_follows_parity (s : Text) :
    Follows (byParity 0 s) s ∧
      (Follows (byStrings 0 s) s ↔ byParity 0 s = byStrings 0 s) ∧
      (apostrophe ∉ s → backslash ∉ s → s.count quote % 2 = 0 → Follows (byStrings 0 s) s) := by
  refine ⟨follows_byParity s, follows_byStrings_iff s, ?_⟩
  intro hapostrophe hbackslash heven
  rw [follows_byStrings_iff]
  exact (byParity_eq_byStrings hapostrophe hbackslash 0 (by simpa using heven)).1 rfl

/-- A reference, and an ampersand between double quotes that is none. -/
theorem resolve_follows_parity_quoted :
    Follows (byStrings 0 "&[x=\"&\"]") "&[x=\"&\"]" ∧
      resolve ["p", "q"] "&[x=\"&\"]" = .ok ["p[x=\"&\"]", "q[x=\"&\"]"] := by
  have hfollows := (resolve_follows_parity "&[x=\"&\"]").2.2 (by decide +kernel) (by decide +kernel)
    (by decide +kernel)
  exact ⟨hfollows, hfollows.substitutes (by decide +kernel) _ (by simp)⟩

/-- Quoted strings are not respected: an apostrophed one is looked into, an escaped quote closes the
string, and a quote that is never closed hides the rest of the selector. -/
theorem strings_not_followed :
    (Part.parent ∉ byStrings 0 "a[x='&']" ∧ resolve ["p"] "a[x='&']" = .ok ["a[x='p']"] ∧
      ¬Follows (byStrings 0 "a[x='&']") "a[x='&']") ∧
    (Part.parent ∉ byStrings 0 "[x=\"\\\"&\"]" ∧
      resolve ["p"] "[x=\"\\\"&\"]" = .ok ["[x=\"\\\"p\"]"] ∧
      ¬Follows (byStrings 0 "[x=\"\\\"&\"]") "[x=\"\\\"&\"]") ∧
    (Part.parent ∈ byStrings 0 "\"&" ∧ resolve ["p"] "\"&" = .ok ["p \"&"] ∧
      ¬Follows (byStrings 0 "\"&") "\"&") := by
  simp only [follows_byStrings_iff]
  exact ⟨⟨by decide +kernel, rfl, by decide +kernel⟩, ⟨by decide +kernel, rfl, by decide +kernel⟩,
    ⟨by decide +kernel, rfl, by decide +kernel⟩⟩

end IndentedSass.Selector
