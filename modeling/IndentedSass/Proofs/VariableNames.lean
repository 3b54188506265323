import IndentedSass.Proofs.Lexing
import IndentedSass.Proofs.LineLevels
import IndentedSass.Proofs.Nesting

/-!
# Names of variables

The name of a variable is read by two grammars. Where the variable is defined, by an assignment, as
a parameter or by a counting loop, the name is any run of letters, digits, underscores and dashes.
Where it is used, dashes have to stand one by one between other bytes, so that `$a-$b` stays a
difference. This module compares the two:

* `Source.isName_of_parse`: what the first grammar lets into a tree;
* `Script.Token.Reads.singleDashes`: no expression at all mentions a variable beyond the second;
* `Source.reference_iff`: so a defined variable can be used if its dashes stand one by one, and
  otherwise never.
-/

namespace IndentedSass

open Ascii

/-! ## Where variables are defined -/

/-- A name as it is defined: bytes of words and dashes, at least one. -/
def IsName (name : Text) : Prop := name ≠ [] ∧ ∀ c ∈ name, Header.isName c = true

namespace Header

theorem isName_of_name? {s name rest : Text} (h : name? s = some (name, rest)) : IsName name := by
  simp only [name?] at h
  split at h
  · cases h
  · rename_i hne
    cases h
    exact ⟨by simpa using hne, fun c hc => List.mem_takeWhile_imp hc⟩

theorem isName_of_sigilName? {s name rest : Text} (h : sigilName? s = some (name, rest)) :
    IsName name := by
  cases s with
  | nil => cases h
  | cons c s =>
    rw [sigilName?] at h
    split at h
    · exact isName_of_name? h
    · cases h

theorem isName_of_assignment? {s : Text} {a : Assignment} (h : assignment? s = some a) :
    IsName a.name := by
  obtain ⟨⟨name, rest⟩, hname, h⟩ := Option.bind_eq_some_iff.1 h
  obtain ⟨⟨optional, expr⟩, -, h⟩ := Option.bind_eq_some_iff.1 h
  cases h
  exact isName_of_sigilName? hname

theorem isName_of_count? {s : Text} {c : Count} (h : count? s = some c) : IsName c.var := by
  obtain ⟨_, -, h⟩ := Option.bind_eq_some_iff.1 h
  obtain ⟨_, -, h⟩ := Option.bind_eq_some_iff.1 h
  obtain ⟨⟨var, rest⟩, hvar, h⟩ := Option.bind_eq_some_iff.1 h
  obtain ⟨_, -, h⟩ := Option.bind_eq_some_iff.1 h
  obtain ⟨_, -, h⟩ := Option.bind_eq_some_iff.1 h
  obtain ⟨_, -, h⟩ := Option.bind_eq_some_iff.1 h
  cases h
  exact isName_of_sigilName? hvar

theorem isName_of_param? {s name : Text} {fallback : Option Text}
    (h : param? s = some (name, fallback)) : IsName name := by
  obtain ⟨⟨found, rest⟩, hname, h⟩ := Option.bind_eq_some_iff.1 h
  have hfound : found = name := by
    dsimp only at h
    split at h
    · cases h
      rfl
    split at h
    · split at h
      · split at h
        · cases h
        · cases h
          rfl
        · cases h
          rfl
      · cases h
    · cases h
  exact hfound ▸ isName_of_sigilName? hname

end Header

namespace Source

theorem isName_of_params {mixin : Text} {optional : Bool} {raws : List Text} {ps : List Param}
    (h : params mixin optional raws = .ok ps) : ∀ p ∈ ps, IsName p.name := by
  induction raws generalizing optional ps with
  | nil =>
    cases h
    exact List.forall_mem_nil _
  | cons raw raws ih =>
    rw [params] at h
    split at h
    · cases h
    · rename_i name fallback hparam
      split at h
      · cases h
      · obtain ⟨later, hlater, h⟩ := Outcome.of_bind_eq_ok h
        cases h
        exact List.forall_mem_cons.2 ⟨Header.isName_of_param? hparam, ih hlater⟩

end Source

/-- The variables that a statement defines itself. -/
def Statement.defines : Statement → List Text
  | .assign _ name _ _ => [name]
  | .mixin _ _ params _ => params.map Param.name
  | .forLoop _ var _ _ _ _ _ => [var]
  | _ => []

namespace Source

theorem Reading.own_isName {way : PropertySyntax} {l : Line} {rest rest' : List Line}
    {before : Option Statement} {shape : Shape} (h : Reading way l rest before shape rest') :
    shape.Own fun s => ∀ name ∈ s.defines, IsName name := by
  cases h with
  | silent => trivial
  | comment | imports | call => exact List.forall_mem_nil _
  | test | repeated | directive | property | rule => exact fun _ => List.forall_mem_nil _
  | further => exact fun _ _ => List.forall_mem_nil _
  | assign h =>
    intro name hname
    rw [List.mem_singleton.1 hname]
    exact Header.isName_of_assignment? h
  | count h =>
    intro body name hname
    rw [List.mem_singleton.1 hname]
    exact Header.isName_of_count? h
  | mixin _ _ hparams =>
    intro body name hname
    obtain ⟨p, hp, rfl⟩ := List.mem_map.1 hname
    exact isName_of_params hparams p hp

/-- Every variable of every tree has a name of the first grammar. -/
theorem isName_of_parse {way : PropertySyntax} {text file : Text} {first : Int} {src : Source}
    (h : parse way text file first = .ok src) {s : Statement} (hs : src.Has s) {name : Text}
    (hname : name ∈ s.defines) : IsName name :=
  every_of_parse Reading.own_isName h hs name hname

end Source

/-! ## Where variables are used -/

namespace Script.Token

/-- Dashes stand one by one and inside: there is something before, between and after them. -/
def SingleDashes (name : Text) : Prop := ∀ piece ∈ Text.splitOn minus name, piece ≠ []

instance (name : Text) : Decidable (SingleDashes name) := List.decidableBAll _ _

/-- What may follow further bytes of such a name: there is something between and after the
dashes. -/
def DashesGoOn (s : Text) : Prop := ∀ piece ∈ (Text.splitOn minus s).tail, piece ≠ []

theorem dashesGoOn_nil : DashesGoOn [] := List.forall_mem_nil _

theorem dashesGoOn_dash {s : Text} : DashesGoOn (minus :: s) ↔ SingleDashes s := by
  rw [DashesGoOn, Text.splitOn_sep]
  rfl

theorem singleDashes_cons {c : UInt8} {s : Text} (hc : c ≠ minus) :
    SingleDashes (c :: s) ↔ DashesGoOn s := by
  obtain ⟨piece, rest, hs⟩ := List.exists_cons_of_ne_nil (Text.splitOn_ne_nil minus s)
  rw [SingleDashes, DashesGoOn, Text.splitOn_cons hc hs, hs]
  simp

theorem dashesGoOn_cons {c : UInt8} {s : Text} (hc : c ≠ minus) :
    DashesGoOn (c :: s) ↔ DashesGoOn s := by
  obtain ⟨piece, rest, hs⟩ := List.exists_cons_of_ne_nil (Text.splitOn_ne_nil minus s)
  rw [DashesGoOn, DashesGoOn, Text.splitOn_cons hc hs, hs]
  rfl

theorem not_singleDashes_dash (s : Text) : ¬SingleDashes (minus :: s) := by
  intro h
  rw [SingleDashes, Text.splitOn_sep] at h
  exact h [] List.mem_cons_self rfl

theorem ne_minus_of_isWord {c : UInt8} (h : isWord c = true) : c ≠ minus := by
  rintro rfl
  revert h
  decide

theorem exists_of_head?_isWord {s : Text} (h : (s.head?.map isWord).getD false = true) :
    ∃ c rest, s = c :: rest ∧ isWord c = true := by
  cases s with
  | nil => cases h
  | cons c rest => exact ⟨c, rest, rfl, h⟩

/-- The reader stops where dashes do not stand one by one. -/
theorem dashesGoOn_take (s : Text) : DashesGoOn (s.take (dashedLength s)) := by
  induction s with
  | nil => exact dashesGoOn_nil
  | cons c s ih =>
    rw [dashedLength]
    split
    · rename_i hc
      rw [List.take_succ_cons]
      exact (dashesGoOn_cons (ne_minus_of_isWord hc)).2 ih
    split
    · rename_i hdash
      rw [Bool.and_eq_true, beq_iff_eq] at hdash
      obtain ⟨d, rest, rfl, hd⟩ := exists_of_head?_isWord hdash.2
      rw [List.take_succ_cons, hdash.1, dashesGoOn_dash]
      -- the word byte after the dash is taken, too
      rw [dashedLength, if_pos hd, List.take_succ_cons] at ih ⊢
      rw [dashesGoOn_cons (ne_minus_of_isWord hd)] at ih
      exact (singleDashes_cons (ne_minus_of_isWord hd)).2 ih
    · exact dashesGoOn_nil

/-- And nowhere else, as long as there are bytes of names. -/
theorem dashedLength_eq {s : Text} (hs : ∀ c ∈ s, Header.isName c = true) (h : DashesGoOn s) :
    dashedLength s = s.length := by
  induction s with
  | nil => rfl
  | cons c s ih =>
    obtain ⟨hc, htail⟩ := List.forall_mem_cons.1 hs
    rw [dashedLength, List.length_cons]
    split
    · rename_i hword
      rw [ih htail ((dashesGoOn_cons (ne_minus_of_isWord hword)).1 h)]
    · rename_i hword
      obtain rfl : c = minus := by
        simpa [Header.isName, hword] using hc
      have hsingle := dashesGoOn_dash.1 h
      cases s with
      | nil => exact absurd rfl (hsingle [] List.mem_cons_self)
      | cons d s =>
        have hd : d ≠ minus := by
          rintro rfl
          exact not_singleDashes_dash s hsingle
        have hword : isWord d = true := by
          simpa [Header.isName, hd] using htail d List.mem_cons_self
        have hgo : DashesGoOn (d :: s) := (dashesGoOn_cons hd).2 ((singleDashes_cons hd).1 hsingle)
        rw [if_pos (by simp [hword]), ih htail hgo]

theorem singleDashes_take {s : Text} (h : (s.head?.map isWord).getD false = true) :
    SingleDashes (s.take (nameLength s)) := by
  have hgo := dashesGoOn_take s
  obtain ⟨c, rest, rfl, hc⟩ := exists_of_head?_isWord h
  rw [dashedLength, if_pos hc, List.take_succ_cons] at hgo
  rw [nameLength, if_pos h, dashedLength, if_pos hc, List.take_succ_cons,
    singleDashes_cons (ne_minus_of_isWord hc)]
  exact (dashesGoOn_cons (ne_minus_of_isWord hc)).1 hgo

theorem singleDashes_of_variableLexeme {sigil : UInt8} {s name : Text} {n : Nat}
    (hs : (s.head?.map isWord).getD false = true)
    (h : variableLexeme sigil s = ⟨some (.variable name), n⟩) : SingleDashes name := by
  simp only [variableLexeme] at h
  split at h
  · cases h
  · cases h
    exact singleDashes_take hs

/-- Variables come from the reader of variables only. -/
theorem singleDashes_of_lexeme {expectOperand free : Bool} {c : UInt8} {s name : Text} {n : Nat}
    (h : lexeme expectOperand free c s = .ok ⟨some (.variable name), n⟩) : SingleDashes name := by
  have hnumber : ∀ size, numberLexeme (c :: s) size ≠ .ok ⟨some (.variable name), n⟩ := by
    intro size h
    rw [numberLexeme] at h
    obtain ⟨v, -, h⟩ := Outcome.of_bind_eq_ok h
    cases h
  rw [lexeme] at h
  split at h
  · exact absurd h (hnumber _)
  split at h
  · exact absurd h (hnumber _)
  split at h
  · rw [colourLexeme] at h
    split at h <;> cases h
  split at h
  · rw [stringLexeme] at h
    split at h <;> cases h
  split at h
  · rename_i hvariable
    rw [Bool.and_eq_true] at hvariable
    exact singleDashes_of_variableLexeme hvariable.2 (Except.ok.inj h)
  split at h
  · rw [wordLexeme] at h
    split at h
    · cases h
    · obtain ⟨size, -, h⟩ := Outcome.of_bind_eq_ok h
      cases h
    · cases h
  split at h
  · cases h
  split at h
  · cases h
  · rw [signLexeme] at h
    split at h
    · cases h
    · cases h
    · cases expectOperand <;> cases h
    · cases h

/-- **No expression mentions a variable whose dashes do not stand one by one.** -/
theorem Reads.singleDashes {expectOperand gap : Bool} {s : Text} {tokens : List Token}
    (h : Reads expectOperand gap s (.ok tokens)) {name : Text} (hname : .variable name ∈ tokens) :
    SingleDashes name := by
  generalize hr : Except.ok tokens = r at h
  induction h generalizing tokens with
  | finish =>
    cases hr
    cases hname
  | gap _ _ ih => exact ih hname hr
  | fault => cases hr
  | pass _ _ _ ih => exact ih hname hr
  | @take _ _ _ _ t n r _ hlexeme _ ih =>
    cases r with
    | error f => cases hr
    | ok more =>
      cases hr
      rcases List.mem_cons.1 hname with rfl | hmore
      · exact singleDashes_of_lexeme hlexeme
      · exact ih hmore rfl

/-- A name with single dashes is read to its end. -/
theorem ofText_reference {name : Text} (hname : IsName name) (h : SingleDashes name) :
    ofText (dollar :: name) = .ok [.variable name] := by
  obtain ⟨hne, hbytes⟩ := hname
  obtain ⟨c, rest, rfl⟩ := List.exists_cons_of_ne_nil hne
  have hc : c ≠ minus := by
    rintro rfl
    exact not_singleDashes_dash rest h
  have hword : isWord c = true := by
    simpa [Header.isName, hc] using hbytes c List.mem_cons_self
  have hgo : DashesGoOn (c :: rest) := (dashesGoOn_cons hc).2 ((singleDashes_cons hc).1 h)
  have hlength : nameLength (c :: rest) = (c :: rest).length := by
    rw [nameLength, if_pos (by simpa using hword), dashedLength_eq hbytes hgo]
  have hlexeme : lexeme true true dollar (c :: rest) =
      .ok ⟨some (.variable (c :: rest)), (c :: rest).length + 1⟩ := by
    have hnumber : ¬startsNumber (dollar :: c :: rest) = true := Bool.false_ne_true
    have hminus : ¬(dollar == minus && startsNumber (c :: rest) && true) = true :=
      Bool.false_ne_true
    rw [lexeme, if_neg hnumber, if_neg hminus, if_neg (by decide), if_neg (by decide),
      if_pos (by simpa using hword), variableLexeme, hlength, List.take_length]
    rfl
  have hrest :
      Reads false false ((dollar :: c :: rest).drop ((c :: rest).length + 1)) (.ok []) := by
    rw [List.drop_succ_cons, List.drop_length]
    exact .finish _ _
  exact (Reads.take (by decide) hlexeme hrest).eq_scan.symm

end Script.Token

namespace Source
open Script

/-- **A variable that is defined can be used if and only if its dashes stand one by one.** After a
dollar sign its name is then read as one token, the variable of that very name. Any other variable
is out of reach: no expression has a token for it. -/
theorem reference_iff {way : PropertySyntax} {text file : Text} {first : Int} {src : Source}
    (h : parse way text file first = .ok src) {s : Statement} (hs : src.Has s) {name : Text}
    (hname : name ∈ s.defines) :
    (Token.SingleDashes name → Token.ofText (dollar :: name) = .ok [.variable name]) ∧
      (¬Token.SingleDashes name →
        ∀ expr tokens, Token.ofText expr = .ok tokens → .variable name ∉ tokens) := by
  refine ⟨Token.ofText_reference (isName_of_parse h hs hname), ?_⟩
  intro hdashes expr tokens hread hmem
  have hreads : Token.Reads true false expr (.ok tokens) := Token.reads_iff.2 hread.symm
  exact hdashes (hreads.singleDashes hmem)

/-- A parameter with a dash before a digit, and beneath it a loop that counts with a variable that
ends in a dash. -/
theorem reference_iff_mixed :
    let loop : Statement := .forLoop ⟨[], 2, 1⟩ "i-" "1" "2" false "1" []
    let m : Statement := .mixin ⟨[], 1, 0⟩ "m" [⟨"top-2_x", some "1"⟩] [loop]
    let src : Source := ⟨⟨[], 1, 0⟩, [m]⟩
    parse .either "=m($top-2_x: 1)\n  @for !i- from 1 to 2\n" [] 1 = .ok src ∧
      src.Has m ∧ m.defines = ["top-2_x"] ∧ src.Has loop ∧ loop.defines = ["i-"] ∧
      Token.ofText "$top-2_x" = .ok [.variable "top-2_x"] ∧
      ∀ expr tokens, Token.ofText expr = .ok tokens → .variable "i-" ∉ tokens := by
  intro loop m src
  have hparse : parse .either "=m($top-2_x: 1)\n  @for !i- from 1 to 2\n" [] 1 = .ok src := rfl
  have hm : src.Has m := .top List.mem_cons_self
  have hloop : src.Has loop := .beneath hm List.mem_cons_self
  refine ⟨hparse, hm, rfl, hloop, rfl, ?_, ?_⟩
  · exact (reference_iff hparse hm List.mem_cons_self).1 (by decide +kernel)
  · exact (reference_iff hparse hloop List.mem_cons_self).2 (by decide +kernel)

/-- Not every variable can be used: a dash at the end is read as an operator, one at the start as
nothing at all, and of two in a row the second belongs to a word. -/
theorem unusable_names :
    (∃ src s, parse .either "$a-: 1\n" [] 1 = .ok src ∧ src.Has s ∧ s.defines = ["a-"] ∧
      Token.ofText "$a-" = .ok [.variable "a", .operator (.binary .sub)]) ∧
    (∃ src s, parse .either "=m($-a)\n" [] 1 = .ok src ∧ src.Has s ∧ s.defines = ["-a"] ∧
      Token.ofText "$-a" = .error (.of .badLiteral "unable to tokenize \"$-a\"")) ∧
    ∃ src s, parse .either "@for $a--b from 1 to 2\n" [] 1 = .ok src ∧ src.Has s ∧
      s.defines = ["a--b"] ∧ Token.ofText "$a--b" =
        .ok [.variable "a", .operator (.binary .sub), .literal (.string "-b" false)] := by
  refine ⟨⟨_, _, rfl, .top List.mem_cons_self, rfl, rfl⟩,
    ⟨_, _, rfl, .top List.mem_cons_self, rfl, rfl⟩,
    ⟨_, _, rfl, .top List.mem_cons_self, rfl, rfl⟩⟩

end Source

end IndentedSass
