import IndentedSass.Script.Colour
import Mathlib.Data.List.Basic

/-!
# Colours and their texts

A packed colour is written by its name in a palette or as six hexadecimal digits, and read by one
table for both palettes, in any case. `Colour.colours_read_back` says that every text that is
written reads back as the colour it was written for, and which texts after a hash sign are colours
at all: `Colour.Denotes` gives the colour of three or six digits, and nothing else is read.
-/

namespace IndentedSass

namespace Ascii

theorem hexValue?_hexDigit {d : Nat} (h : d < 16) : hexValue? (hexDigit d) = some d := by
  revert d
  decide +kernel

theorem hexValue?_toLower (c : UInt8) : hexValue? (toLower c) = hexValue? c := by
  obtain ⟨⟨n⟩⟩ := c
  revert n
  decide +kernel

/-- Hexadecimal digits are ASCII characters. -/
theorem lt_of_isSome_hexValue? {c : UInt8} (h : (hexValue? c).isSome) : c < 0x80 := by
  revert h
  obtain ⟨⟨n⟩⟩ := c
  revert n
  decide +kernel

theorem lt_of_hexValue? {c : UInt8} {d : Nat} (h : hexValue? c = some d) : d < 16 := by
  have hall : ∀ c : UInt8, (hexValue? c).all (· < 16) = true := by
    intro c
    obtain ⟨⟨n⟩⟩ := c
    revert n
    decide +kernel
  simpa [h] using hall c

end Ascii

namespace Text

/-- Where something is replaced, all of the replacement shows. -/
theorem replace_eq_or_subset (old new s : Text) :
    replace old new s = s ∨ ∀ c ∈ new, c ∈ replace old new s := by
  cases old with
  | nil => exact .inl rfl
  | cons a old =>
    show replaceFrom (a :: old) new 0 s = s ∨ ∀ c ∈ new, c ∈ replaceFrom (a :: old) new 0 s
    induction s with
    | nil => exact .inl rfl
    | cons c s ih =>
      rw [replaceFrom]
      split
      · exact .inr fun x hx => List.mem_append_left _ hx
      · rcases ih with heq | hnew
        · exact .inl (by rw [heq])
        · exact .inr fun x hx => List.mem_cons_of_mem _ (hnew x hx)

theorem replace_cons_of_ne {a c : UInt8} (h : a ≠ c) (old new s : Text) :
    replace (a :: old) new (c :: s) = c :: replace (a :: old) new s := by
  have hstart : (a :: old).isPrefixOf (c :: s) = false := by
    simp [List.isPrefixOf, h]
  show replaceFrom (a :: old) new 0 (c :: s) = c :: replaceFrom (a :: old) new 0 s
  rw [replaceFrom, hstart, if_neg Bool.false_ne_true]

theorem replace_of_not_mem {a : UInt8} {s : Text} (h : a ∉ s) (old new : Text) :
    replace (a :: old) new s = s := by
  induction s with
  | nil => rfl
  | cons c s ih =>
    rw [List.mem_cons, not_or] at h
    rw [replace_cons_of_ne h.1, ih h.2]

end Text

namespace Script.Colour
open Ascii

/-! ## Lower case -/

theorem fold_hash (s : Text) : fold (hashSign :: s) = hashSign :: fold s := by
  have hlower : Text.lower (hashSign :: s) = hashSign :: s.lower := rfl
  rw [fold, fold, hlower, dottedI, Text.replace_cons_of_ne (by decide), kelvin,
    Text.replace_cons_of_ne (by decide)]

/-- Letters outside ASCII do not become hexadecimal digits. -/
theorem fold_eq_lower {s : Text} (h : ∀ c ∈ fold s, (hexValue? c).isSome) : fold s = s.lower := by
  have hk : ¬ ∀ c ∈ ("k" : Text), c ∈ fold s := fun hk =>
    absurd (h 0x6b (hk _ (by decide +kernel))) (by decide)
  have hinner : fold s = Text.replace dottedI "i" s.lower :=
    (Text.replace_eq_or_subset _ _ _).resolve_right hk
  have hi : ¬ ∀ c ∈ ("i" : Text), c ∈ Text.replace dottedI "i" s.lower := fun hi =>
    absurd (h 0x69 (hinner ▸ hi _ (by decide +kernel))) (by decide)
  exact hinner.trans ((Text.replace_eq_or_subset _ _ _).resolve_right hi)

theorem fold_of_hex {s : Text} (h : ∀ c ∈ s, (hexValue? c).isSome) : fold s = s.lower := by
  have hascii : ∀ c ∈ s.lower, c < 0x80 := by
    intro c hc
    obtain ⟨b, hb, rfl⟩ := List.mem_map.1 hc
    exact lt_of_isSome_hexValue? (hexValue?_toLower b ▸ h b hb)
  have hlead {a : UInt8} (ha : ¬ a < 0x80) : a ∉ s.lower := fun hmem => ha (hascii a hmem)
  rw [fold, dottedI, Text.replace_of_not_mem (hlead (by decide)), kelvin,
    Text.replace_of_not_mem (hlead (by decide))]

/-! ## Digits -/

/-- The colour that hexadecimal digits denote: two digits a channel, or one that counts twice. -/
inductive Denotes (s : Text) : Colour → Prop
  | short {x y z : Nat} (h : s.map hexValue? = [some x, some y, some z]) :
    Denotes s (rgb (Float.ofNat (16 * x + x)) (Float.ofNat (16 * y + y))
      (Float.ofNat (16 * z + z)))
  | long {x x' y y' z z' : Nat}
    (h : s.map hexValue? = [some x, some x', some y, some y', some z, some z']) :
    Denotes s (rgb (Float.ofNat (16 * x + x')) (Float.ofNat (16 * y + y'))
      (Float.ofNat (16 * z + z')))

theorem Denotes.isSome {s : Text} {c : Colour} (h : Denotes s c) :
    ∀ b ∈ s, (hexValue? b).isSome := by
  intro b hb
  have hmem : hexValue? b ∈ s.map hexValue? := List.mem_map_of_mem hb
  cases h with
  | short h | long h =>
    rw [h] at hmem
    grind

/-- The case of the digits does not matter. -/
theorem denotes_lower {s : Text} {c : Colour} : Denotes s.lower c ↔ Denotes s c := by
  have hmap : s.lower.map hexValue? = s.map hexValue? := by
    rw [Text.lower, List.map_map]
    exact List.map_congr_left fun c _ => hexValue?_toLower c
  constructor
  · rintro (h | h)
    · exact .short (hmap ▸ h)
    · exact .long (hmap ▸ h)
  · rintro (h | h)
    · exact .short (hmap.trans h)
    · exact .long (hmap.trans h)

/-- The step of `hex6?`. -/
def takeDigit (n : Option Nat) (c : UInt8) : Option Nat := do
  return (← n) * 16 + (← hexValue? c)

theorem foldl_takeDigit {s : Text} {digits : List Nat} (h : s.map hexValue? = digits.map some)
    (n : Nat) : s.foldl takeDigit (some n) = some (digits.foldl (fun n d => n * 16 + d) n) := by
  induction s generalizing digits n with
  | nil =>
    obtain rfl : digits = [] := by simpa using h.symm
    rfl
  | cons c s ih =>
    cases digits with
    | nil => cases h
    | cons d digits =>
      obtain ⟨hc, hs⟩ := List.cons.inj h
      have hstep : takeDigit (some n) c = some (n * 16 + d) := by
        rw [takeDigit, hc]
        rfl
      rw [List.foldl_cons, hstep, ih hs]
      rfl

theorem exists_digits {s : Text} {n : Option Nat} (h : (s.foldl takeDigit n).isSome) :
    ∃ digits : List Nat, s.map hexValue? = digits.map some := by
  induction s generalizing n with
  | nil => exact ⟨[], rfl⟩
  | cons c s ih =>
    obtain ⟨digits, hdigits⟩ := ih h
    cases hc : hexValue? c with
    | some d => exact ⟨d :: digits, by simp [hc, hdigits]⟩
    | none =>
      have hstuck : ∀ t : Text, t.foldl takeDigit none = none := by
        intro t
        induction t with
        | nil => rfl
        | cons _ _ ih => exact ih
      have hnone : takeDigit n c = none := by
        rw [takeDigit, hc]
        cases n <;> rfl
      rw [List.foldl_cons, hnone, hstuck] at h
      cases h

section SixDigits
variable {s : Text} {x x' y y' z z' : Nat}

theorem hex6?_of_digits
    (h : s.map hexValue? = [some x, some x', some y, some y', some z, some z']) :
    hex6? s = some ((((((0 * 16 + x) * 16 + x') * 16 + y) * 16 + y') * 16 + z) * 16 + z') := by
  have hlength : s.length = 6 := by simpa using congrArg List.length h
  have hdigits : s.map hexValue? = [x, x', y, y', z, z'].map some := h
  rw [hex6?, if_neg (not_not.2 hlength)]
  exact foldl_takeDigit hdigits 0

/-- Two digits make up a channel. -/
theorem ofPacked_of_digits
    (h : s.map hexValue? = [some x, some x', some y, some y', some z, some z']) :
    (hex6? s).map ofPacked = some (rgb (Float.ofNat (16 * x + x')) (Float.ofNat (16 * y + y'))
      (Float.ofNat (16 * z + z'))) := by
  have hsmall : ∀ d, some d ∈ s.map hexValue? → d < 16 := by
    intro d hd
    obtain ⟨b, -, hb⟩ := List.mem_map.1 hd
    exact lt_of_hexValue? hb
  have hx := hsmall x (by simp [h])
  have hx' := hsmall x' (by simp [h])
  have hy := hsmall y (by simp [h])
  have hy' := hsmall y' (by simp [h])
  have hz := hsmall z (by simp [h])
  have hz' := hsmall z' (by simp [h])
  rw [hex6?_of_digits h, Option.map_some, ofPacked]
  congr 3 <;> omega

theorem exists_digits_of_hex6? {v : Nat} (h : hex6? s = some v) : ∃ x x' y y' z z',
    s.map hexValue? = [some x, some x', some y, some y', some z, some z'] := by
  rw [hex6?] at h
  split at h
  · cases h
  · rename_i hlength
    obtain ⟨digits, hdigits⟩ := exists_digits (Option.isSome_of_eq_some h)
    have hsix : digits.length = 6 := by
      rw [← List.length_map some, ← hdigits, List.length_map]
      exact not_not.1 hlength
    obtain _ | ⟨x, _ | ⟨x', _ | ⟨y, _ | ⟨y', _ | ⟨z, _ | ⟨z', _ | ⟨_, _⟩⟩⟩⟩⟩⟩⟩ := digits
    case cons.cons.cons.cons.cons.cons.nil => exact ⟨x, x', y, y', z, z', hdigits⟩
    all_goals simp at hsix

end SixDigits

/-- Three digits are six, each of them twice. -/
theorem hex?_eq_hex6? {s : Text} (h : s.length ≠ 3) : hex? s = hex6? s := by
  rw [hex?.eq_def]
  split
  · exact absurd rfl h
  · rfl

theorem Denotes.hex? {s : Text} {c : Colour} (h : Denotes s c) :
    (hex? s).map ofPacked = some c := by
  cases h with
  | @short x y z h =>
    obtain ⟨r, s, rfl, hr, h⟩ := List.map_eq_cons_iff.1 h
    obtain ⟨g, s, rfl, hg, h⟩ := List.map_eq_cons_iff.1 h
    obtain ⟨b, s, rfl, hb, h⟩ := List.map_eq_cons_iff.1 h
    obtain rfl := List.map_eq_nil_iff.1 h
    have hsix : [r, r, g, g, b, b].map hexValue? =
        [some x, some x, some y, some y, some z, some z] := by
      simp only [List.map_cons, List.map_nil, hr, hg, hb]
    exact ofPacked_of_digits hsix
  | long h =>
    have hlength : s.length = 6 := by simpa using congrArg List.length h
    rw [hex?_eq_hex6? (by omega)]
    exact ofPacked_of_digits h

theorem denotes_of_hex? {s : Text} {v : Nat} (h : Colour.hex? s = some v) : ∃ c, Denotes s c := by
  by_cases hlength : s.length = 3
  · obtain ⟨r, g, b, rfl⟩ := List.length_eq_three.1 hlength
    obtain ⟨x, x', y, y', z, z', hdigits⟩ := exists_digits_of_hex6? h
    have hthree : [r, g, b].map hexValue? = [some x, some y, some z] := by
      simp only [List.map_cons, List.cons.injEq] at hdigits
      simp [hdigits]
    exact ⟨_, .short hthree⟩
  · rw [hex?_eq_hex6? hlength] at h
    obtain ⟨x, x', y, y', z, z', hdigits⟩ := exists_digits_of_hex6? h
    exact ⟨_, .long hdigits⟩

theorem map_hex?_eq_some {s : Text} {c : Colour} :
    (Colour.hex? s).map ofPacked = some c ↔ Denotes s c := by
  refine ⟨fun h => ?_, Denotes.hex?⟩
  obtain ⟨v, hv, -⟩ := Option.map_eq_some_iff.1 h
  obtain ⟨c', hdenotes⟩ := denotes_of_hex? hv
  rw [hdenotes.hex?] at h
  exact Option.some.inj h ▸ hdenotes

end Script.Colour

/-! ## Names -/

namespace Script.Palette
open Ascii

/-- What can be relied on for a name and its value: it is read as that value, whatever its case
was, and is neither the other name of a colour nor digits. -/
theorem svgNames_read : ∀ e ∈ svgNames, value? e.1 = some e.2 ∧ Colour.fold e.1 = e.1 ∧
    e.1 ≠ ("transparent" : Text) ∧ e.1.head? ≠ some hashSign := by
  decide +kernel

theorem html4Names_subset : ∀ e ∈ html4Names, e ∈ svgNames := by
  decide +kernel

theorem ranked_subset (palette : Palette) : ∀ e ∈ palette.ranked, e ∈ svgNames := by
  cases palette with
  | html4 => exact fun e he => html4Names_subset e (List.mem_reverse.1 he)
  | css3 => exact fun e he => he

theorem mem_svgNames_of_name? {palette : Palette} {v : Nat} {name : Text}
    (h : palette.name? v = some name) : (name, v) ∈ svgNames := by
  obtain ⟨e, he, rfl⟩ := Option.map_eq_some_iff.1 h
  have hv : e.2 = v := by simpa using List.find?_some he
  exact hv ▸ palette.ranked_subset e (List.mem_of_find?_eq_some he)

theorem value?_hash (s : Text) : value? (hashSign :: s) = none := by
  rw [value?, List.lookup_eq_none_iff]
  intro e he
  rw [bne_iff_ne]
  intro heq
  exact (svgNames_read e he).2.2.2 (heq ▸ rfl)

end Script.Palette

namespace Script.Colour
open Ascii

/-- **After a hash sign, three or six digits are read and nothing else.** -/
theorem ofText?_hash {s : Text} {c : Colour} :
    ofText? (hashSign :: s) = some c ↔ Denotes s c := by
  have hread : ofText? (hashSign :: s) = (Colour.hex? (fold s)).map ofPacked := by
    have hfirst : ("transparent" : Text).head? ≠ some hashSign := by decide +kernel
    have hne : hashSign :: fold s ≠ ("transparent" : Text) := fun heq => hfirst (heq ▸ rfl)
    unfold ofText?
    rw [fold_hash]
    dsimp only
    rw [if_neg hne, Palette.value?_hash]
    rfl
  rw [hread, map_hex?_eq_some]
  constructor
  · intro h
    rw [← denotes_lower, ← fold_eq_lower h.isSome]
    exact h
  · intro h
    rw [fold_of_hex h.isSome, denotes_lower]
    exact h

theorem ofText?_of_mem {name : Text} {v : Nat} (h : (name, v) ∈ Palette.svgNames) :
    ofText? name = some (ofPacked v) := by
  obtain ⟨hvalue, hfold, hne, -⟩ := Palette.svgNames_read _ h
  unfold ofText?
  dsimp only at hvalue hfold hne ⊢
  rw [hfold, if_neg hne, hvalue]

/-- The six digits of a packed value denote its colour. -/
theorem denotes_ofHex (v : Nat) : Denotes (Text.ofHex 6 v) (ofPacked v) := by
  have hdigit (n : Nat) : hexValue? (hexDigit (n % 16)) = some (n % 16) :=
    hexValue?_hexDigit (Nat.mod_lt n (by decide))
  have hdigits : (Text.ofHex 6 v).map hexValue? =
      [some (v / 16 / 16 / 16 / 16 / 16 % 16), some (v / 16 / 16 / 16 / 16 % 16),
        some (v / 16 / 16 / 16 % 16), some (v / 16 / 16 % 16), some (v / 16 % 16),
        some (v % 16)] := by
    simp [Text.ofHex, hdigit]
  have hchannels : ofPacked v =
      rgb (Float.ofNat (16 * (v / 16 / 16 / 16 / 16 / 16 % 16) + v / 16 / 16 / 16 / 16 % 16))
        (Float.ofNat (16 * (v / 16 / 16 / 16 % 16) + v / 16 / 16 % 16))
        (Float.ofNat (16 * (v / 16 % 16) + v % 16)) := by
    rw [ofPacked]
    congr 2 <;> omega
  rw [hchannels]
  exact .long hdigits

theorem byte_le (x : Float) : byte x ≤ 255 := by
  rw [byte]
  split <;> omega

theorem byte_ofNat : ∀ n < 0x100, byte (Float.ofNat n) = n := by
  decide +kernel

/-- The channels of a packed value are its bytes. -/
theorem packed_ofPacked {v : Nat} (h : v < 0x1000000) :
    packed (Float.ofNat (v / 0x10000 % 0x100)) (Float.ofNat (v / 0x100 % 0x100))
      (Float.ofNat (v % 0x100)) = v := by
  rw [packed, byte_ofNat _ (by omega), byte_ofNat _ (by omega), byte_ofNat _ (by omega)]
  omega

theorem packed_lt (r g b : Float) : packed r g b < 0x1000000 := by
  have hr := byte_le r
  have hg := byte_le g
  have hb := byte_le b
  rw [packed]
  omega

theorem ofText?_packedText (palette : Palette) (v : Nat) :
    ofText? (packedText palette v) = some (ofPacked v) := by
  rw [packedText]
  split
  · rename_i name hname
    exact ofText?_of_mem (Palette.mem_svgNames_of_name? hname)
  · exact ofText?_hash.2 (denotes_ofHex v)

/-- **Colours read back as themselves.** Every packed value is written, in either palette, as a text
that reads as its colour. Other channels are written as those of a packed value. After a hash sign
three or six hexadecimal digits in any case are read as the colour they denote, and no other text
is a colour. -/
theorem colours_read_back :
    (∀ (palette : Palette) (v : Fin 0x1000000), (ofPacked v).text palette = packedText palette v ∧
      ofText? (packedText palette v) = some (ofPacked v)) ∧
    (∀ (palette : Palette) (r g b : Float), ∃ v : Fin 0x1000000,
      (rgb r g b).text palette = packedText palette v ∧
        ofText? ((rgb r g b).text palette) = some (ofPacked v)) ∧
    ∀ (s : Text) (c : Colour), ofText? (hashSign :: s) = some c ↔ Denotes s c := by
  refine ⟨fun palette v => ⟨?_, ofText?_packedText palette v⟩, fun palette r g b => ?_,
    fun s c => ofText?_hash⟩
  · rw [ofPacked, text, packed_ofPacked v.isLt]
  · exact ⟨⟨packed r g b, packed_lt r g b⟩, rfl, ofText?_packedText palette _⟩

end Script.Colour

end IndentedSass
