import IndentedSass.Proofs.Lexing

/-!
# Quoted strings, read and written

Three functions treat backslashes in strings, each in its own way. Whoever looks for the end of a
literal passes over a backslash and the byte after it. The text of a literal drops the backslash
before a delimiter only. A written string has a backslash before each of its double quotes, and no
thought is given to one that is there already.

`Spells` relates a literal and its text piece by piece, so that the three can be compared. A string
survives being written and read again if and only if no double quote is escaped in an apostrophed
literal (`literal_survives_iff`): such a quote keeps its backslash, is given another one, and ends
the string.
-/

namespace IndentedSass

open Ascii

namespace Text

/-- Replacing a single byte. -/
theorem replace_byte (c : UInt8) (new s : Text) :
    replace [c] new s = s.flatMap fun b => if b = c then new else [b] := by
  have hfrom : ∀ s, replaceFrom [c] new 0 s = s.flatMap fun b => if b = c then new else [b] := by
    intro s
    induction s with
    | nil => rfl
    | cons b s ih =>
      rw [replaceFrom, List.flatMap_cons]
      by_cases hb : b = c
      · simp [hb, ih]
      · simp [hb, ih, Ne.symm hb]
  exact hfrom s

end Text

namespace Script

/-! ## The end of a literal -/

theorem closingQuote?_close {q : UInt8} (hq : q ≠ backslash) (s : Text) :
    closingQuote? q (q :: s) = some 1 := by
  cases s <;> simp [closingQuote?, hq]

theorem closingQuote?_plain {q c : UInt8} (hc : c ≠ backslash) (hq : c ≠ q) (s : Text) :
    closingQuote? q (c :: s) = (closingQuote? q s).map (· + 1) := by
  cases s <;> simp [closingQuote?, hc, hq]

theorem closingQuote?_escaped (q d : UInt8) (s : Text) :
    closingQuote? q (backslash :: d :: s) = (closingQuote? q s).map (· + 2) := by
  simp [closingQuote?]

/-! ## Literals and their texts -/

/-- What stands between two quotes `q`, and the text it stands for. A backslash goes with the byte
after it, and stays unless that is the delimiter. -/
inductive Spells (q : UInt8) : Text → Text → Prop
  | nil : Spells q [] []
  | plain {c : UInt8} {s t : Text} (hc : c ≠ backslash) (hq : c ≠ q) (rest : Spells q s t) :
    Spells q (c :: s) (c :: t)
  | escaped {d : UInt8} {s t : Text} (hd : d ≠ q) (rest : Spells q s t) :
    Spells q (backslash :: d :: s) (backslash :: d :: t)
  | delimiter {s t : Text} (rest : Spells q s t) : Spells q (backslash :: q :: s) (q :: t)

/-- A literal that ends somewhere in a text spells something. -/
theorem exists_spells_of_closingQuote? {q : UInt8} {s : Text} {n : Nat}
    (h : closingQuote? q s = some n) :
    ∃ inner t, s = inner ++ q :: s.drop n ∧ Spells q inner t := by
  fun_induction closingQuote? q s generalizing n with
  | case1 => cases h
  | case2 c hc =>
    obtain ⟨-, rfl⟩ : c ≠ backslash ∧ c = q := by simpa using hc
    cases h
    exact ⟨[], [], rfl, .nil⟩
  | case3 => cases h
  | case4 c d s hc ih =>
    obtain rfl : c = backslash := by simpa using hc
    obtain ⟨m, hm, rfl⟩ := Option.map_eq_some_iff.1 h
    obtain ⟨inner, t, hs, hinner⟩ := ih hm
    by_cases hd : d = q
    · subst hd
      exact ⟨_, _, congrArg (backslash :: d :: ·) hs, .delimiter hinner⟩
    · exact ⟨_, _, congrArg (backslash :: d :: ·) hs, .escaped hd hinner⟩
  | case5 c d s _ hq =>
    obtain rfl : c = q := by simpa using hq
    cases h
    exact ⟨[], [], rfl, .nil⟩
  | case6 c d s hc hq ih =>
    obtain ⟨m, hm, rfl⟩ := Option.map_eq_some_iff.1 h
    obtain ⟨inner, t, hs, hinner⟩ := ih hm
    have hplain : Spells q (c :: inner) (c :: t) :=
      .plain (by simpa using hc) (by simpa using hq) hinner
    exact ⟨c :: inner, c :: t, congrArg (c :: ·) hs, hplain⟩

/-- A literal that ends where the text ends spells something. -/
theorem exists_spells {q : UInt8} {s : Text} (h : closingQuote? q s = some s.length) :
    ∃ inner t, s = inner ++ [q] ∧ Spells q inner t := by
  obtain ⟨inner, t, hs, hinner⟩ := exists_spells_of_closingQuote? h
  rw [List.drop_length] at hs
  exact ⟨inner, t, hs, hinner⟩

theorem Spells.head?_ne {q : UInt8} (hq : q ≠ backslash) {s t : Text} (h : Spells q s t) :
    s.head? ≠ some q := by
  cases h with
  | nil => simp
  | plain _ hc => simpa using hc
  | escaped | delimiter => simpa using hq.symm

theorem replaceFrom_escape (q : UInt8) (s : Text) :
    Text.replaceFrom [backslash, q] [q] 0 (backslash :: q :: s) =
      q :: Text.replaceFrom [backslash, q] [q] 0 s := by
  simp [Text.replaceFrom]

/-- Only a backslash before the quote goes away. -/
theorem replaceFrom_cons {q c : UInt8} {s : Text} (h : c = backslash → s.head? ≠ some q) :
    Text.replaceFrom [backslash, q] [q] 0 (c :: s) =
      c :: Text.replaceFrom [backslash, q] [q] 0 s := by
  rw [Text.replaceFrom, if_neg]
  intro hstarts
  obtain ⟨rest, hrest⟩ := List.isPrefixOf_iff_prefix.1 hstarts
  obtain ⟨rfl, rfl⟩ := List.cons.inj hrest
  exact h rfl rfl

/-- **The text of a literal is what it spells.** -/
theorem Spells.ofQuoted {q : UInt8} (hq : q ≠ backslash) {inner t : Text} (h : Spells q inner t) :
    Value.ofQuoted (q :: (inner ++ [q])) = .string t true := by
  have hreplace : Text.replaceFrom [backslash, q] [q] 0 inner = t := by
    induction h with
    | nil => rfl
    | plain hc _ _ ih => rw [replaceFrom_cons fun h => absurd h hc, ih]
    | @escaped d s t hd rest ih =>
      -- the second byte of the pair may be a backslash, but no quote follows it
      have hhead := rest.head?_ne hq
      rw [replaceFrom_cons fun _ => by simpa using hd, replaceFrom_cons fun _ => hhead, ih]
    | delimiter _ ih => rw [replaceFrom_escape, ih]
  show Value.string (Text.replaceFrom [backslash, q] [q] 0 (inner ++ [q]).dropLast) true = _
  rw [List.dropLast_concat, hreplace]

/-! ## Writing and reading again -/

/-- A text with a backslash before each double quote. -/
def escapeQuotes (t : Text) : Text :=
  t.flatMap fun b => if b = quote then [backslash, quote] else [b]

theorem backslash_ne_quote : backslash ≠ quote := by decide

theorem escapeQuotes_nil : escapeQuotes [] = [] := rfl

theorem escapeQuotes_quote (t : Text) :
    escapeQuotes (quote :: t) = backslash :: quote :: escapeQuotes t := rfl

theorem escapeQuotes_cons {c : UInt8} (hc : c ≠ quote) (t : Text) :
    escapeQuotes (c :: t) = c :: escapeQuotes t := by
  simp [escapeQuotes, hc]

theorem escapeQuotes_append (s t : Text) :
    escapeQuotes (s ++ t) = escapeQuotes s ++ escapeQuotes t := List.flatMap_append

theorem quoteString_eq (t : Text) : Value.quoteString t = quote :: (escapeQuotes t ++ [quote]) := by
  have hquote : ("\"" : Text) = [quote] := by decide +kernel
  have hescaped : ("\\\"" : Text) = [backslash, quote] := by decide +kernel
  rw [Value.quoteString, hquote, hescaped, Text.replace_byte]
  rfl

theorem head?_escapeQuotes_append {u : Text} (hu : u.head? ≠ some quote) (t : Text) :
    (escapeQuotes t ++ u).head? ≠ some quote := by
  cases t with
  | nil => exact hu
  | cons c t =>
    by_cases hc : c = quote
    · subst hc
      simpa [escapeQuotes_quote] using backslash_ne_quote
    · simpa [escapeQuotes_cons hc] using hc

/-- Reading undoes writing, as far as backslashes go. -/
theorem replaceFrom_escapeQuotes {u : Text} (hu : u.head? ≠ some quote) (t : Text) :
    Text.replaceFrom [backslash, quote] [quote] 0 (escapeQuotes t ++ u) =
      t ++ Text.replaceFrom [backslash, quote] [quote] 0 u := by
  induction t with
  | nil => rfl
  | cons c t ih =>
    by_cases hc : c = quote
    · subst hc
      rw [escapeQuotes_quote, List.cons_append, List.cons_append, replaceFrom_escape, ih,
        List.cons_append]
    · rw [escapeQuotes_cons hc, List.cons_append,
        replaceFrom_cons fun _ => head?_escapeQuotes_append hu t, ih, List.cons_append]

theorem ofQuoted_escapeQuotes {u : Text} (hu : u.head? ≠ some quote) (t : Text) :
    Value.ofQuoted (quote :: (escapeQuotes t ++ u ++ [quote])) =
      .string (t ++ Text.replaceFrom [backslash, quote] [quote] 0 u) true := by
  show Value.string (Text.replaceFrom [backslash, quote] [quote] 0
    (escapeQuotes t ++ u ++ [quote]).dropLast) true = _
  rw [List.dropLast_concat, replaceFrom_escapeQuotes hu]

/-- The bytes of a literal that a backslash precedes, the backslashes taken in pairs. -/
def escapedBytes : Text → List UInt8
  | [] => []
  | [_] => []
  | c :: d :: s => if c = backslash then d :: escapedBytes s else escapedBytes (d :: s)

theorem escapedBytes_plain {c : UInt8} (hc : c ≠ backslash) (s : Text) :
    escapedBytes (c :: s) = escapedBytes s := by
  cases s <;> simp [escapedBytes, hc]

theorem escapedBytes_escaped (d : UInt8) (s : Text) :
    escapedBytes (backslash :: d :: s) = d :: escapedBytes s := by
  simp [escapedBytes]

/-- A string is read to its end if it was not apostrophed or has no escaped double quote. -/
theorem Spells.closes {q : UInt8} (hq : q ≠ backslash) {inner t : Text} (h : Spells q inner t)
    (hsafe : q = quote ∨ quote ∉ escapedBytes (inner ++ [q])) :
    closingQuote? quote (escapeQuotes t ++ [quote]) = some ((escapeQuotes t).length + 1) := by
  induction h with
  | nil => rfl
  | @plain c s t hc hcq _ ih =>
    rw [List.cons_append, escapedBytes_plain hc] at hsafe
    have hrest := ih hsafe
    by_cases hquote : c = quote
    · subst hquote
      simp [escapeQuotes_quote, closingQuote?_escaped, hrest]
    · simp [escapeQuotes_cons hquote, closingQuote?_plain hc hquote, hrest]
  | @escaped d s t hd _ ih =>
    rw [List.cons_append, List.cons_append, escapedBytes_escaped, List.mem_cons, not_or] at hsafe
    have hquote : d ≠ quote := by
      rintro rfl
      rcases hsafe with rfl | hsafe
      · exact hd rfl
      · exact hsafe.1 rfl
    have hrest := ih (hsafe.imp_right And.right)
    simp [escapeQuotes_cons backslash_ne_quote, escapeQuotes_cons hquote,
      closingQuote?_escaped, hrest]
  | @delimiter s t _ ih =>
    rw [List.cons_append, List.cons_append, escapedBytes_escaped, List.mem_cons, not_or] at hsafe
    have hrest := ih (hsafe.imp_right And.right)
    by_cases hquote : q = quote
    · subst hquote
      simp [escapeQuotes_quote, closingQuote?_escaped, hrest]
    · simp [escapeQuotes_cons hquote, closingQuote?_plain hq hquote, hrest]

/-- Otherwise it ends at the first double quote that was escaped, with two backslashes before it. -/
theorem Spells.breaks {q : UInt8} (hq : q ≠ backslash) {inner t : Text} (h : Spells q inner t)
    (hquote : q ≠ quote) (hbad : quote ∈ escapedBytes (inner ++ [q])) :
    ∃ before after, t = before ++ quote :: after ∧
      closingQuote? quote (escapeQuotes t ++ [quote]) =
        some ((escapeQuotes before).length + 2) := by
  induction h with
  | nil => simp [escapedBytes] at hbad
  | @plain c s t hc hcq _ ih =>
    rw [List.cons_append, escapedBytes_plain hc] at hbad
    obtain ⟨before, after, rfl, hrest⟩ := ih hbad
    refine ⟨c :: before, after, rfl, ?_⟩
    by_cases hc' : c = quote
    · subst hc'
      simp [escapeQuotes_quote, closingQuote?_escaped, hrest]
    · simp [escapeQuotes_cons hc', closingQuote?_plain hc hc', hrest]
  | @escaped d s t hd _ ih =>
    rw [List.cons_append, List.cons_append, escapedBytes_escaped] at hbad
    by_cases hd' : d = quote
    · subst hd'
      refine ⟨[backslash], t, rfl, ?_⟩
      simp [escapeQuotes_cons backslash_ne_quote, escapeQuotes_quote, escapeQuotes_nil,
        closingQuote?_escaped, closingQuote?_close backslash_ne_quote.symm]
    · obtain ⟨before, after, rfl, hrest⟩ := ih (by simpa [Ne.symm hd'] using hbad)
      refine ⟨backslash :: d :: before, after, rfl, ?_⟩
      simp [escapeQuotes_cons backslash_ne_quote, escapeQuotes_cons hd',
        closingQuote?_escaped, hrest]
  | @delimiter s t _ ih =>
    rw [List.cons_append, List.cons_append, escapedBytes_escaped] at hbad
    obtain ⟨before, after, rfl, hrest⟩ := ih (by simpa [Ne.symm hquote] using hbad)
    refine ⟨q :: before, after, rfl, ?_⟩
    simp [escapeQuotes_cons hquote, closingQuote?_plain hq hquote, hrest]

namespace Token

/-- What is read from a double quote on: the string up to its end, then the rest. -/
theorem ofText_quote {s : Text} {n : Nat} (h : closingQuote? quote s = some n) :
    ofText (quote :: s) = (scan false false 0 (s.drop n)).map
      (.literal (.ofQuoted (quote :: s.take n)) :: ·) := by
  have hlexeme : lexeme true true quote s =
      .ok ⟨some (.literal (.ofQuoted (quote :: s.take n))), n + 1⟩ := by
    have hnumber : ¬startsNumber (quote :: s) = true := Bool.false_ne_true
    have hminus : ¬(quote == minus && startsNumber s && true) = true := Bool.false_ne_true
    rw [lexeme, if_neg hnumber, if_neg hminus, if_neg (by decide), if_pos (by decide),
      stringLexeme, quotedLength?, h]
    rfl
  have hreads : Reads true false (quote :: s) _ :=
    .take (by decide) hlexeme (reads_scan false false (s.drop n))
  exact hreads.eq_scan.symm

end Token

/-- A string that is read to its end is read as it was. -/
theorem Spells.survives {q : UInt8} (hq : q ≠ backslash) {inner t : Text} (h : Spells q inner t)
    (hsafe : q = quote ∨ quote ∉ escapedBytes (inner ++ [q])) :
    Token.ofText (quote :: (escapeQuotes t ++ [quote])) = .ok [.literal (.string t true)] := by
  have hlength : (escapeQuotes t).length + 1 = (escapeQuotes t ++ [quote]).length := by simp
  rw [Token.ofText_quote (h.closes hq hsafe), hlength, List.take_length, List.drop_length,
    ← List.append_nil (escapeQuotes t), ofQuoted_escapeQuotes (by simp)]
  simp [Token.scan, Except.map, Text.replaceFrom]

/-- One that is not gives a shorter string first, with a backslash where the text has a double
quote. -/
theorem Spells.not_survives {q : UInt8} (hq : q ≠ backslash) {inner t : Text} (h : Spells q inner t)
    (hquote : q ≠ quote) (hbad : quote ∈ escapedBytes (inner ++ [q])) :
    Token.ofText (quote :: (escapeQuotes t ++ [quote])) ≠ .ok [.literal (.string t true)] := by
  obtain ⟨before, after, rfl, hbreaks⟩ := h.breaks hq hquote hbad
  have hfirst : (escapeQuotes (before ++ quote :: after) ++ [quote]).take
      ((escapeQuotes before).length + 2) = escapeQuotes before ++ [backslash] ++ [quote] := by
    rw [escapeQuotes_append, escapeQuotes_quote]
    simp [List.take_append, List.take_of_length_le]
  rw [Token.ofText_quote hbreaks, hfirst, ofQuoted_escapeQuotes (by simpa using backslash_ne_quote)]
  intro hread
  generalize Token.scan false false 0 _ = rest at hread
  cases rest with
  | error f => cases hread
  | ok more =>
    have hvalue := (List.cons.inj (Except.ok.inj hread)).1
    have htext : [backslash] = quote :: after := by simpa [Text.replaceFrom] using hvalue
    exact backslash_ne_quote (List.cons.inj htext).1

/-- **A string survives being written and read again** if and only if no double quote is escaped in
an apostrophed literal. -/
theorem literal_survives_iff {q : UInt8} {s : Text} (hq : isQuote q = true)
    (h : quotedLength? (q :: s) = some (q :: s).length) (palette : Palette) :
    Token.ofText ((Value.ofQuoted (q :: s)).text palette) = .ok [.literal (.ofQuoted (q :: s))] ↔
      ¬(q = apostrophe ∧ quote ∈ escapedBytes s) := by
  have hcases : q = quote ∨ q = apostrophe := by simpa [isQuote] using hq
  have hslash : q ≠ backslash := by rcases hcases with rfl | rfl <;> decide
  have hclose : closingQuote? q s = some s.length := by
    obtain ⟨n, hn, hlength⟩ := Option.map_eq_some_iff.1 h
    simpa [hn] using hlength
  obtain ⟨inner, t, rfl, hspells⟩ := exists_spells hclose
  rw [hspells.ofQuoted hslash, Value.text, quoteString_eq]
  by_cases hbad : q = apostrophe ∧ quote ∈ escapedBytes (inner ++ [q])
  · have hquote : q ≠ quote := hbad.1 ▸ by decide
    exact iff_of_false (hspells.not_survives hslash hquote hbad.2) (not_not_intro hbad)
  · have hsafe : q = quote ∨ quote ∉ escapedBytes (inner ++ [q]) := by
      rcases hcases with hq | hq
      · exact .inl hq
      · exact .inr fun hescaped => hbad ⟨hq, hescaped⟩
    exact iff_of_true (hspells.survives hslash hsafe) hbad

/-- An escaped delimiter, plain double quotes and a backslash that stays. -/
theorem literal_survives_iff_apostrophed :
    quotedLength? "'it\\'s \"\\a\"'" = some 12 ∧
      Value.ofQuoted "'it\\'s \"\\a\"'" = .string "it's \"\\a\"" true ∧
      (Value.string "it's \"\\a\"" true).text .html4 = "\"it's \\\"\\a\\\"\"" ∧
      Token.ofText "\"it's \\\"\\a\\\"\"" = .ok [.literal (.string "it's \"\\a\"" true)] := by
  have hlength : quotedLength? "'it\\'s \"\\a\"'" = some 12 := by decide +kernel
  refine ⟨hlength, rfl, by decide +kernel, ?_⟩
  exact (literal_survives_iff (by decide) hlength .html4).2 (by decide +kernel)

/-- A double quote that is escaped in an apostrophed literal ends the string when it is read again,
and leaves the last quote open. -/
theorem escaped_quote_lost :
    quotedLength? "'\\\"'" = some 4 ∧
      Value.ofQuoted "'\\\"'" = .string "\\\"" true ∧
      (Value.string "\\\"" true).text .html4 = "\"\\\\\"\"" ∧
      Token.ofText "\"\\\\\"\"" = .error (.of .badLiteral "unterminated string \"") := by
  exact ⟨by decide +kernel, rfl, by decide +kernel, rfl⟩

end Script

end IndentedSass
