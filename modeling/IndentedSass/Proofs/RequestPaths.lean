import IndentedSass.Proofs.PathSteps
import IndentedSass.Service.Sheets

/-!
# Where requests lead

A request names a style sheet below the template location. Its name may be any text at all, with
empty elements, dots and double dots wherever it likes. Below a root none of them is left when the
name is made clean (`Path.isName_of_rooted`), so that joining it to the location only ever adds
names to the way there (`Path.steps_join_names`): a request cannot leave the location.
-/

namespace IndentedSass

namespace Service.Sheets
open Ascii
variable {location name e : Text}

/-- A request name below the root, made clean. -/
def below (name : Text) : Text := Text.join "/" (Path.cleanElements ("/" ++ name))

theorem isAbs_slash (name : Text) : Path.isAbs ("/" ++ name : Text) = true := by
  rw [Path.slash_eq]
  rfl

theorem fileOf_eq (location name : Text) :
    fileOf location name = Path.join [location, below name ++ Library.extension] := by
  rw [fileOf, Path.clean_rooted (isAbs_slash name)]
  rfl

/-- With the extension every element of a request is a name. -/
theorem isName_requested (he : e ∈ Path.elements (below name ++ Library.extension)) :
    Path.IsName e := by
  have hext (x : Text) : Path.IsName (x ++ Library.extension) := by
    refine Path.isName_of_length ?_
    rw [List.length_append]
    have := Library.length_extension
    omega
  have hslash := Library.slash_not_mem_extension
  by_cases hnil : Path.cleanElements ("/" ++ name) = []
  · have hempty : Path.elements (below name) = [] ++ [[]] := by
      rw [below, hnil]
      rfl
    rw [Path.elements_append_text hempty hslash, List.nil_append, List.mem_singleton] at he
    exact he ▸ hext []
  · have helements : Path.elements (below name) = Path.cleanElements ("/" ++ name) :=
      Path.elements_join_cleanElements hnil
    have hsplit := List.dropLast_append_getLast hnil
    rw [← hsplit] at helements
    rw [Path.elements_append_text helements hslash, List.mem_append, List.mem_singleton] at he
    rcases he with he | rfl
    · exact Path.isName_of_rooted (isAbs_slash name) (List.dropLast_subset _ he)
    · exact hext _

/-- A name that is clean already stays as it is. -/
theorem below_of_clean (hclean : Path.clean name = name) (habs : Path.isAbs name = false)
    (hdot : name ≠ ".") (hdots : (".." : Text) ∉ Path.elements name) : below name = name := by
  have hnames := Path.isName_of_clean hclean habs hdot hdots
  have hcleaned : Path.cleanElements ("/" ++ name) = Path.elements name := by
    rw [Path.cleanElements, isAbs_slash, Path.slash_eq, List.singleton_append,
      Path.elements_slash, List.foldl_cons, show Path.climb true [] [] = [] from rfl,
      Path.foldl_climb_proper [] (List.all_eq_true.mpr hnames), List.append_nil,
      List.reverse_reverse]
  rw [below, hcleaned, Path.join_elements]

/-- **A request cannot leave the template location.** Its file is the location joined with a
relative path of names that ends in the extension, so that the way to it is the way to the location
and then those names. A name that is clean already is taken as it is. -/
theorem fileOf_stays_below (location name : Text) :
    ∃ q, fileOf location name = Path.join [location, q] ∧ Path.isAbs q = false ∧
      (∀ e ∈ Path.elements q, e ≠ [] ∧ e ≠ "." ∧ e ≠ "..") ∧ Library.extension <:+ q ∧
      Path.isAbs (fileOf location name) = Path.isAbs location ∧
      Path.steps (fileOf location name) =
        Path.steps (Path.clean location) ++ Path.elements q ∧
      (Path.clean name = name → Path.isAbs name = false → name ≠ "." →
        (".." : Text) ∉ Path.elements name → q = name ++ Library.extension) := by
  have hnames : ∀ e ∈ Path.elements (below name ++ Library.extension), Path.IsName e :=
    fun e he => isName_requested he
  have hsteps := Path.steps_join_names location hnames
  rw [← fileOf_eq] at hsteps
  refine ⟨below name ++ Library.extension, fileOf_eq location name,
    Path.not_isAbs_of_names hnames, ?_, List.suffix_append _ _, hsteps.2, hsteps.1, ?_⟩
  · intro e he
    have hname := hnames e he
    unfold Path.IsName at hname
    simpa [and_assoc] using hname
  · intro hclean habs hdot hdots
    rw [below_of_clean hclean habs hdot hdots]

/-- A location that is itself relative: a request full of dots and slashes stays below it, and a
clean one is taken as it is. -/
theorem fileOf_stays_below_upwards :
    fileOf "../css" "a/../..//./../../etc/passwd" = ("../css/etc/passwd.sass" : Text) ∧
      Path.clean "themes/..dark" = ("themes/..dark" : Text) ∧
      ∃ q, fileOf "../css" "themes/..dark" = Path.join ["../css", q] ∧
        q = "themes/..dark" ++ Library.extension := by
  refine ⟨by decide +kernel, by decide +kernel, ?_⟩
  obtain ⟨q, hfile, -, -, -, -, -, hsame⟩ := fileOf_stays_below "../css" "themes/..dark"
  exact ⟨q, hfile, hsame (by decide +kernel) (by decide +kernel) (by decide +kernel)
    (by decide +kernel)⟩

end Service.Sheets

end IndentedSass
