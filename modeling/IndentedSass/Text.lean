import IndentedSass.Text.Ascii

/-!
# Text

A text is a list of bytes. Sources, selectors, values and error messages are texts: they are cut
and compared byte by byte and need not be valid UTF-8, since a script may cut a string in the
middle of a character.

String literals stand for their UTF-8 bytes through a coercion, so `"a" ++ t` is a text when `t`
is one.
-/

namespace IndentedSass

/-- A sequence of bytes. -/
abbrev Text := List UInt8

namespace Text
open Ascii

/-- The UTF-8 bytes of a string. -/
def ofString (s : String) : Text := s.toUTF8.data.toList

instance : Coe String Text := ⟨ofString⟩

/-! ## Numbers -/

/-- The decimal digits of a natural number. -/
def ofNat (n : Nat) : Text := (Nat.toDigits 10 n).map fun c => c.toNat.toUInt8

/-- The decimal text of an integer, with a minus sign for a negative one. -/
def ofInt (n : Int) : Text :=
  if n < 0 then minus :: ofNat n.natAbs else ofNat n.natAbs

/-- The last `width` hexadecimal digits of `n`, in lower case. -/
def ofHex : (width : Nat) → (n : Nat) → Text
  | 0, _ => []
  | width + 1, n => ofHex width (n / 16) ++ [hexDigit (n % 16)]

/-- The value of a non-empty text of decimal digits. -/
def toNat? (s : Text) : Option Nat :=
  if s.isEmpty || !s.all isDigit then none
  else some (s.foldl (fun n c => 10 * n + (c - 0x30).toNat) 0)

/-! ## Comparing and searching -/

/-- The order of texts: by the first byte that differs, a shorter text before its extensions. -/
def order : Text → Text → Ordering
  | [], [] => .eq
  | [], _ :: _ => .lt
  | _ :: _, [] => .gt
  | a :: s, b :: t => if a < b then .lt else if b < a then .gt else order s t

/-- Sorting order of texts, as a test. -/
def le (s t : Text) : Bool := order s t != .gt

/-- What follows `head` at the start of `s`. -/
def after? : (head s : Text) → Option Text
  | [], s => some s
  | _ :: _, [] => none
  | a :: head, b :: s => if a = b then after? head s else none

/-- `s` without `tail` at its end; `s` itself when it does not end so. -/
def dropEnd (tail s : Text) : Text :=
  if tail.isSuffixOf s then s.take (s.length - tail.length) else s

/-- The parts of `s` before and after the first occurrence of `needle`. -/
def cut? (needle : Text) : Text → Option (Text × Text)
  | [] => if needle.isEmpty then some ([], []) else none
  | c :: s =>
    match after? needle (c :: s) with
    | some rest => some ([], rest)
    | none => (cut? needle s).map fun (before, rest) => (c :: before, rest)

/-- Nothing is lost at a cut but the head. -/
theorem length_of_after? {head s rest : Text} (h : after? head s = some rest) :
    s.length = head.length + rest.length := by
  fun_induction after? head s with
  | case1 => simp_all
  | case2 => cases h
  | case3 head b s ih =>
    have := ih h
    simp only [List.length_cons]
    omega
  | case4 => cases h

/-- Nothing is lost at a cut but the needle. -/
theorem length_of_cut? {needle s before rest : Text} (h : cut? needle s = some (before, rest)) :
    s.length = before.length + needle.length + rest.length := by
  induction s generalizing before with
  | nil =>
    cases needle with
    | nil => simp_all [cut?]
    | cons a needle => simp [cut?] at h
  | cons c s ih =>
    rw [cut?] at h
    split at h
    · next r hr =>
      obtain ⟨rfl, rfl⟩ := Prod.mk.inj (Option.some.inj h)
      have := length_of_after? hr
      simp_all
    · obtain ⟨⟨b, r⟩, hb, hr⟩ := Option.map_eq_some_iff.1 h
      obtain ⟨rfl, rfl⟩ := Prod.mk.inj hr
      have := ih hb
      simp only [List.length_cons]
      omega

/-- Whether `needle` occurs in `s`. -/
def contains (needle s : Text) : Bool := (cut? needle s).isSome

/-! ## Splitting, joining, replacing -/

/-- The pieces between the occurrences of `sep`; there is always one more piece than
separators. -/
def splitOn (sep : UInt8) : Text → List Text
  | [] => [[]]
  | c :: s =>
    match splitOn sep s with
    | [] => [[c]]
    | piece :: rest => if c = sep then [] :: piece :: rest else (c :: piece) :: rest

/-- The parts with `sep` between neighbours. -/
def join (sep : Text) : List Text → Text
  | [] => []
  | [s] => s
  | s :: t :: rest => s ++ sep ++ join sep (t :: rest)

/-- Walks over a text with `skip` bytes of an occurrence of `old` still to pass. -/
def replaceFrom (old new : Text) : (skip : Nat) → Text → Text
  | _, [] => []
  | skip + 1, _ :: s => replaceFrom old new skip s
  | 0, c :: s =>
    if old.isPrefixOf (c :: s) then new ++ replaceFrom old new (old.length - 1) s
    else c :: replaceFrom old new 0 s

/-- The text with every occurrence of `old`, from the left and without overlaps, replaced by
`new`. Nothing is replaced when `old` is empty. -/
def replace (old new s : Text) : Text :=
  if old.isEmpty then s else replaceFrom old new 0 s

/-- `n` copies of `s` one after the other. -/
def times (n : Nat) (s : Text) : Text := (List.replicate n s).flatten

/-- The ASCII letters in lower case, all else as it is. -/
def lower (s : Text) : Text := s.map toLower

/-! ## Trimming -/

/-- Drops the bytes at the end that pass a test. -/
def trimEndWhile (p : UInt8 → Bool) (s : Text) : Text := (s.reverse.dropWhile p).reverse

/-- White space of a single byte. -/
def isSpaceByte (c : UInt8) : Bool := isBlank c || c == verticalTab

/-- The white space characters of more than one byte. -/
def wideSpaces : List Text :=
  [[0xc2, 0x85], [0xc2, 0xa0], [0xe1, 0x9a, 0x80], [0xe2, 0x80, 0x80], [0xe2, 0x80, 0x81],
   [0xe2, 0x80, 0x82], [0xe2, 0x80, 0x83], [0xe2, 0x80, 0x84], [0xe2, 0x80, 0x85],
   [0xe2, 0x80, 0x86], [0xe2, 0x80, 0x87], [0xe2, 0x80, 0x88], [0xe2, 0x80, 0x89],
   [0xe2, 0x80, 0x8a], [0xe2, 0x80, 0xa8], [0xe2, 0x80, 0xa9], [0xe2, 0x80, 0xaf],
   [0xe2, 0x81, 0x9f], [0xe3, 0x80, 0x80]]

/-- How many bytes of the white space character at the start of `s` follow its first byte;
`wide` lists the characters of several bytes in reading direction. -/
def spaceTail? (wide : List Text) : Text → Option Nat
  | [] => none
  | c :: s =>
    if isSpaceByte c then some 0
    else (wide.find? fun w => w.isPrefixOf (c :: s)).map fun w => w.length - 1

/-- Drops white space characters from the start, with `skip` bytes of one still to pass. -/
def dropSpaces (wide : List Text) : (skip : Nat) → Text → Text
  | _, [] => []
  | skip + 1, _ :: s => dropSpaces wide skip s
  | 0, c :: s =>
    match spaceTail? wide (c :: s) with
    | some skip => dropSpaces wide skip s
    | none => c :: s

/-- The text without the white space around it, by the Unicode property of that name. -/
def trim (s : Text) : Text :=
  let rest := dropSpaces wideSpaces 0 s
  (dropSpaces (wideSpaces.map List.reverse) 0 rest.reverse).reverse

/-- Whether there is nothing but white space. -/
def isBlankText (s : Text) : Bool := (trim s).isEmpty

end Text

end IndentedSass
