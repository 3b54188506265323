import IndentedSass.Source.Builder
import IndentedSass.Style
import IndentedSass.Scope

/-!
# Options of the compiler
-/

namespace IndentedSass

/-- The options as they are written; `Options.filled` puts defaults in place of empty ones. -/
structure Options where
  style : Text := []
  /-- Forces the compressed style. -/
  ugly : Bool := false
  /-- Keeps parsed trees between compilations. -/
  cache : Bool := false
  loadPaths : List Text := []
  templateLocation : Text := []
  propertySyntax : Text := []
  vendorProperties : Bindings (List Text) := []
  css3Colours : Bool := false
  /-- The number of the first source line. -/
  line : Int := 0

namespace Options

/-- The nested style and the first line are the defaults. -/
def filled (o : Options) : Options :=
  { o with
    style := if o.style.isEmpty then Style.nested.name else o.style
    line := if o.line = 0 then 1 else o.line }

/-- The style that an option names. -/
def parseStyle (s : Text) : Except Fault Style :=
  match Style.ofName? s with
  | some style => .ok style
  | none => .error (.invalid ("unknown style: " ++ s))

/-- Refuses names that mean nothing. -/
def validate (o : Options) : Except Fault Unit := do
  let _ ← parseStyle o.style
  if [[], "new", "old"].contains o.propertySyntax then return ()
  else throw (.invalid ("unknown property_syntax: " ++ o.propertySyntax))

/-- The palette of the written colours. -/
def palette (o : Options) : Script.Palette := if o.css3Colours then .css3 else .html4

end Options

end IndentedSass
