import IndentedSass.Fault
import IndentedSass.Json
import IndentedSass.Library

/-!
# Events about changes

An event names the changed files the way requests name them: relative to the template location and
without the ending of source files.
-/

namespace IndentedSass.Live

/-- Events are told relative to a template location; there has to be one. -/
def checkLocation (location : Text) : Except Fault Unit :=
  if location.isEmpty then .error (.invalid "missing template location") else .ok ()

/-- The names of changed files, in order. Files that are not below the same root are left out. -/
def namesOf (location : Text) (changed : List Text) : List Text :=
  (changed.filterMap fun p =>
    (Path.relative? location p).map (Text.dropEnd Library.extension)).mergeSort Text.le

/-- The event for changed files. -/
def event (location : Text) (changed : List Text) : Text :=
  (Json.object [("files", .ofTexts (namesOf location changed))]).render

end IndentedSass.Live
