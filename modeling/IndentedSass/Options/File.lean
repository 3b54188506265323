import IndentedSass.Machine
import IndentedSass.Options.Document

/-!
# Options from a file
-/

namespace IndentedSass.Options

/-- The options written down in a file. -/
def load (path : Text) (m : Machine) : Except Fault Options :=
  match m.read path with
  | .error r => .error (.tagged "read options" r.fault)
  | .ok text =>
    match ofDocument text with
    | .ok o => .ok o
    | .error message => .error (.invalid ("malformed options in " ++ path ++ ": " ++ message))

end IndentedSass.Options
