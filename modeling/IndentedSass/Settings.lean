import IndentedSass.Decimal.Integer
import IndentedSass.Settings.ByteSize
import IndentedSass.Settings.Duration

/-!
# Settings

Settings are named texts given from outside. An empty setting counts as one that is not there, and
then a fallback is taken; a setting that cannot be read is a fault that names it.
-/

namespace IndentedSass

/-- Settings by name. -/
abbrev Settings := List (Text × Text)

namespace Settings
open Ascii

/-- A setting that is there and not empty. -/
def get? (env : Settings) (key : Text) : Option Text :=
  (env.lookup key).filter fun raw => !raw.isEmpty

/-- A setting read by `read`, which may give a message instead. -/
def parsed {α : Type} (env : Settings) (key : Text) (fallback : α)
    (read : Text → Except Text α) : Except Fault α :=
  match env.get? key with
  | none => .ok fallback
  | some raw =>
    match read raw with
    | .ok a => .ok a
    | .error message => .error (.tagged ("malformed " ++ key) (.plain message))

/-- An integer. -/
def int (env : Settings) (key : Text) (fallback : Int) : Except Fault Int :=
  env.parsed key fallback fun raw => (Decimal.readInt raw).mapError (Decimal.intMessage raw)

/-- A duration in nanoseconds. -/
def duration (env : Settings) (key : Text) (fallback : Int) : Except Fault Int :=
  env.parsed key fallback fun raw => (Duration.read raw).mapError (·.message raw)

/-- A size in bytes. -/
def bytes (env : Settings) (key : Text) (fallback : Int) : Except Fault Int :=
  env.parsed key fallback fun raw => (ByteSize.read raw).mapError (·.message raw)

/-- A text. -/
def text (env : Settings) (key fallback : Text) : Text := (env.get? key).getD fallback

/-- A text that has to be there. -/
def required (env : Settings) (key : Text) : Except Fault Text :=
  match env.get? key with
  | some raw => .ok raw
  | none => .error (.plain ("missing " ++ key))

/-- Whether a setting is the word `true`, in any case of letters. -/
def flag (env : Settings) (key : Text) : Bool := (env.text key "false").lower = ("true" : Text)

/-- The items between commas, trimmed, empty ones left out. -/
def list (env : Settings) (key : Text) (fallback : List Text) : List Text :=
  match env.get? key with
  | none => fallback
  | some raw => ((raw.splitOn comma).map Text.trim).filter fun item => !item.isEmpty

end Settings

end IndentedSass
