import IndentedSass.Machine

/-!
# Bundling

A bundler reads style sheets that import each other and source files. This module has the two parts
that the compiler adds to it: how a source file is loaded, and which files cannot be bundled.
-/

namespace IndentedSass.Tool.Bundle
open Ascii

/-! ## Loading -/

/-- A message about a line of a file. -/
structure Message where
  text : Text
  file : Text
  line : Int
  deriving DecidableEq, Repr

/-- A loaded file: its style sheet or the messages about it, and the files to watch. -/
structure Loaded where
  contents : Option Text
  messages : List Message
  watched : List Text

/-- Loads a source file. A fault that is known to lie in a file is a message about it; any other
fault ends the bundling. -/
def load (c : Compiler) (path : Text) (m : Machine) : (Loaded × Option Fault) × Machine :=
  match Machine.compile c path m with
  | ((.ok css, files), m) => ((⟨some css, [], files⟩, none), m)
  | ((.error fault, files), m) =>
    match fault.pos?, fault.message? with
    | some pos, some message =>
      if pos.file.isEmpty then ((⟨none, [], files⟩, some (.tagged path fault)), m)
      else ((⟨none, [⟨message, pos.file, pos.line⟩], files⟩, none), m)
    | _, _ => ((⟨none, [], files⟩, some (.tagged path fault)), m)

/-! ## Imports of style sheets -/

/-- A text without the blanks and comments at its start, with `inComment` for the inside of one. -/
def skipFrom : (inComment : Bool) → (skip : Nat) → Text → Text
  | _, _, [] => []
  | inComment, skip + 1, _ :: s => skipFrom inComment skip s
  | true, 0, c :: s =>
    if c == asterisk && s.head? == some slash then skipFrom false 1 s else skipFrom true 0 s
  | false, 0, c :: s =>
    if Text.isSpaceByte c then skipFrom false 0 s
    else if c == slash && s.head? == some asterisk then skipFrom true 1 s
    else c :: s

/-- The target of an import, after the word. -/
def target? (s : Text) : Option Text :=
  let s := skipFrom false 0 s
  match s with
  | c :: rest =>
    if isQuote c then some (rest.takeWhile (· != c))
    else
      match Text.after? "url(" s with
      | some rest =>
        let inside : Text := Text.trim (rest.takeWhile (· != rparen))
        some (inside.filter fun c => !isQuote c)
      | none => none
  | [] => none

/-- The targets of the imports that a style sheet starts with. -/
def importsFrom : (fuel : Nat) → Text → List Text
  | 0, _ => []
  | fuel + 1, s =>
    match Text.after? "@import" (skipFrom false 0 s) with
    | none => []
    | some rest =>
      let behind : Text := (rest.dropWhile (· != semicolon)).drop 1
      (target? rest).toList ++ importsFrom fuel behind

/-- The targets of the imports of a style sheet. -/
def importsOf (css : Text) : List Text := importsFrom css.length css

/-- Whether a target lies elsewhere and stays as it is. -/
def isElsewhere (target : Text) : Bool :=
  ["http://", "https://", "//", "data:"].any fun head => (Text.ofString head).isPrefixOf target

/-! ## Problems -/

/-- The number of problems of files: each mention of a file that is not there, each source file that
does not compile, and those of the imports. `done` are the files read before. -/
def problems (c : Compiler) : (fuel : Nat) → (paths done : List Text) → Machine → Nat × Machine
  | 0, _, _, m => (0, m)
  | _ + 1, [], _, m => (0, m)
  | fuel + 1, path :: rest, done, m =>
    let path := Path.join [if Path.isAbs path then [] else m.workDir, path]
    if done.contains path then problems c fuel rest done m
    else
      match m.read path with
      | .error _ =>
        let (count, m) := problems c fuel rest done m
        (count + 1, m)
      | .ok text =>
        let done := path :: done
        let (css?, m) : Option Text × Machine :=
          if Library.extension.isSuffixOf path then
            let ((loaded, _), m) := load c path m
            (loaded.contents, m)
          else (some text, m)
        match css? with
        | none =>
          let (count, m) := problems c fuel rest done m
          (count + 1, m)
        | some css =>
          let targets := ((importsOf css).filter fun t => !isElsewhere t).map fun t =>
            Path.join [Path.dir path, t]
          problems c fuel (targets ++ rest) done m

/-- How often a bundle of entry points follows imports at most. -/
def ampleSteps : Nat := Nat.pow 2 20

/-- Bundles entry points; fails with the number of problems. -/
def run (c : Compiler) (entries : List Text) : Machine.Action Unit := fun m =>
  match problems c ampleSteps entries [] m with
  | (0, m) => (.ok (), m)
  | (count, m) =>
    (.error (.plain ("bundle failed with " ++ Text.ofNat count ++ " error(s)")), m)

end IndentedSass.Tool.Bundle
