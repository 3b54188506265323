import IndentedSass.Tool.Build
import IndentedSass.Tool.Storage

/-!
# Publishing style sheets

Compiles source files and puts the style sheets into a bucket. Each upload is verified by its size,
and answered by the key of the object or by a signed link to it.
-/

namespace IndentedSass.Tool

/-- Where style sheets are published, and whether links are wanted. -/
structure PublishOptions where
  bucket : Text
  /-- What keys start with. -/
  folder : Text
  wantsLink : Bool

/-- The type of style sheets in the storage. -/
def sheetType : Text := "text/css; charset=utf-8"

/-- The key of the style sheet of a source file. -/
def objectKey (folder src : Text) : Text := Path.join [folder, Path.base (outputPath src [])]

/-- Puts a style sheet into the storage and verifies it; the answer is the key or the link. -/
def upload {σ : Type} (storage : Storage σ) (o : PublishOptions) (src css : Text) (state : σ) :
    Except Fault Text × σ :=
  let key := objectKey o.folder src
  match storage.send o.bucket key ⟨css, css.length, sheetType⟩ state with
  | (.error fault, state) => (.error (.tagged ("upload " ++ key) fault), state)
  | (.ok (), state) =>
    match storage.size o.bucket key state with
    | .error fault => (.error (.tagged ("verify " ++ key) fault), state)
    | .ok size =>
      if size != css.length then
        (.error (.plain ("verify " ++ key ++ ": stored " ++ Text.ofInt size ++ " bytes, sent "
          ++ Text.ofNat css.length)), state)
      else if !o.wantsLink then (.ok key, state)
      else
        match storage.link o.bucket key state with
        | .error fault => (.error (.tagged ("sign " ++ key) fault), state)
        | .ok url => (.ok url, state)

/-- Publishes files; the first fault ends it. The answer is a line for each file. -/
def publish {σ : Type} (c : Compiler) (storage : Storage σ) (o : PublishOptions) :
    List Text → Machine → σ → Except Fault (List Text) × Machine × σ
  | [], m, state => (.ok [], m, state)
  | src :: rest, m, state =>
    match (Machine.compiled c src).run m with
    | (.error fault, m) => (.error (.tagged src fault), m, state)
    | (.ok css, m) =>
      match upload storage o src css state with
      | (.error fault, state) => (.error fault, m, state)
      | (.ok line, state) =>
        match publish c storage o rest m state with
        | (.error fault, m, state) => (.error fault, m, state)
        | (.ok lines, m, state) => (.ok (line :: lines), m, state)

end IndentedSass.Tool
