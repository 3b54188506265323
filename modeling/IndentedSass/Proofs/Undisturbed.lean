import IndentedSass.Proofs.Drafts
import IndentedSass.Proofs.Sources

/-!
# Undisturbed compilations

While files are compiled, other style sheets may be written into directories that are there. The
disk keeps its sources then (`Disk.SameSources`). A compilation asks only for targets and for the
files that they lead to, so that it takes the same turns as on the disk at the beginning
(`Service.Doing.turn_congr`). So what it comes to is what compiling anew gives at the beginning,
whatever right trees and targets the library remembers (`Compiler.compileFile_eq_beginning`).
-/

namespace IndentedSass

/-! ## Files that targets lead to -/

namespace Library
variable {lib now : Library} {d d' : Disk} {uri file p : Text}

/-- A path that some target is resolved to. -/
def Finds (lib : Library) (d : Disk) (p : Text) : Prop := ∃ uri file, lib.resolve d uri file = .ok p

section Later
variable (hlib : lib.Rooted) (hsame : d.SameSources d') (hp : lib.Finds d p)
include hlib hsame hp

theorem look_of_finds : d'.look (lib.toDisk p) = d.look (lib.toDisk p) := by
  obtain ⟨uri, file, hresolve⟩ := hp
  obtain ⟨q, rfl, hq, hends⟩ := extension_of_resolve hresolve
  have hvalid := ((d.isFile_iff q).mp hq).1
  rw [Bool.and_eq_true] at hvalid
  rw [hlib.back q hvalid.1]
  exact hsame.look hends hq

theorem modTime_of_finds : lib.modTime d' p = lib.modTime d p :=
  modTime_congr (look_of_finds hlib hsame hp)

theorem treeAt_of_finds (way : PropertySyntax) : lib.treeAt way d' p = lib.treeAt way d p := by
  refine treeAt_congr ?_
  rw [Disk.read, Disk.read, look_of_finds hlib hsame hp, hsame.isNative]

end Later

theorem resolveCached_of_sameSources (hsame : d.SameSources d') (lib : Library) (uri file : Text) :
    lib.resolveCached d' uri file = lib.resolveCached d uri file := by
  unfold resolveCached
  rw [resolve_of_sameSources hsame]

end Library

namespace Compiler
variable {c : Compiler} {lib : Library} {d : Disk} {s : Shelf}

/-- What holds of all paths that targets are resolved to holds of the listed ones. -/
theorem forall_files_importAnew {P : Text → Prop} (hP : ∀ p, lib.Finds d p → P p)
    (hs : ∀ p ∈ s.files, P p) (uri file : Text) :
    ∀ p ∈ ((c.importAnew lib d).load uri file s).2.files, P p := by
  cases hresolve : lib.resolve d uri file with
  | error fault =>
    rw [importAnew_of_error hresolve]
    exact hs
  | ok q =>
    rw [importAnew_of_ok hresolve]
    cases hpending : s.pending.lookup q with
    | some source =>
      rw [Shelf.load_of_some hpending]
      exact hs
    | none =>
      rw [Shelf.load_of_none hpending, Shelf.files_note]
      intro p hp
      rcases List.mem_append.mp hp with hp | hp
      · exact hs p hp
      · rw [List.mem_singleton.mp hp]
        exact hP q ⟨uri, file, hresolve⟩

theorem forall_files_conversation {α : Type} {view : List Expand.Answer → Expand.Outlook α}
    {x y : List Expand.Answer × Shelf} {P : Text → Prop} (hP : ∀ p, lib.Finds d p → P p)
    (h : Expand.Conversation view (c.importAnew lib d) x y) (hx : ∀ p ∈ x.2.files, P p) :
    ∀ p ∈ y.2.files, P p := by
  induction h with
  | refl => exact hx
  | tail _ hlast ih =>
    obtain @⟨answers, uri, file, s, s', answer, -, load⟩ := hlast
    have hfiles := @forall_files_importAnew c lib d s P hP ih uri file
    rw [load] at hfiles
    exact hfiles

/-- Compiling lists paths that targets are resolved to. -/
theorem finds_of_compileAnew (c : Compiler) (lib : Library) (d : Disk) (path : Text) :
    ∀ p ∈ (c.compileAnew lib d path).files, lib.Finds d p := by
  cases hresolve : lib.resolve d path [] with
  | error fault =>
    rw [compileAnew_of_unresolved hresolve]
    exact List.forall_mem_nil _
  | ok q =>
    have hfirst : ∀ p ∈ [q], lib.Finds d p := List.forall_mem_singleton.mpr ⟨path, [], hresolve⟩
    cases htree : lib.treeAt c.propertySyntax d q with
    | error fault =>
      rw [compileAnew_of_error hresolve htree]
      exact hfirst
    | ok source =>
      obtain ⟨answers, s, result, hconversation, hends⟩ :=
        (c.expandAnew_converses lib d q source).exists_end ⟨[(q, source)], [q]⟩
      rw [compileAnew_of_conversation hresolve htree hconversation hends]
      exact forall_files_conversation (fun _ h => h) hconversation hfirst

end Compiler

/-! ## Turns -/

namespace Service
variable {lib : Library} {seen : List Disk} {d d' : Disk} {order : Order} {draft : Draft}
  {phase : Phase} {m : Sheets} {now p : Text} {way : PropertySyntax}

theorem Wants.finds (h : Wants lib d order draft p) : lib.Finds d p := by
  obtain ⟨⟨uri, file, -, hresolve⟩, -⟩ := h
  exact ⟨uri, file, hresolve⟩

theorem Ends.finds {css : Except Expand.Stop Text} (h : Ends lib d order draft css) :
    ∀ p ∈ draft.shelf.files, lib.Finds d p := by
  have hfinds := order.compiler.finds_of_compileAnew lib d order.path
  rw [h] at hfinds
  exact hfinds

/-- **A compilation takes the same turns among the same sources.** -/
theorem Doing.turn_congr (hlib : lib.Rooted) (hsame : d.SameSources d')
    (hm : m.library.Right way lib seen d) (h : Doing lib seen d order draft phase) :
    phase.turn now d' order draft m = phase.turn now d order draft m := by
  have hmodTime {p : Text} (hp : lib.Finds d p) :
      m.library.modTime d' p = m.library.modTime d p := by
    rw [hm.modTime_eq, hm.modTime_eq, Library.modTime_of_finds hlib hsame hp]
  cases h with
  | resolve asks =>
    unfold Phase.turn
    dsimp only
    rw [Library.resolveCached_of_sameSources hsame]
  | seek wants => rfl
  | date wants saw =>
    unfold Phase.turn
    dsimp only
    rw [hmodTime wants.finds]
  | drop wants => rfl
  | read wants =>
    unfold Phase.turn
    dsimp only
    rw [hm.treeAt_eq, hm.treeAt_eq, Library.treeAt_of_finds hlib hsame wants.finds]
  | finish ends right => rfl
  | @commit css rest ends right rest_subset =>
    rcases rest with _ | ⟨⟨p, source⟩, rest⟩
    · rfl
    · have hp := (right.pending p source (rest_subset List.mem_cons_self)).1
      unfold Phase.turn
      dsimp only
      rw [hmodTime (ends.finds p hp)]
  | store ends right rest_subset saw => rfl
  | @stamp css times done rest ends files stamped =>
    rcases rest with _ | ⟨p, rest⟩
    · rfl
    · have hp : p ∈ draft.shelf.files := by
        rw [files]
        exact List.mem_append_right _ List.mem_cons_self
      unfold Phase.turn
      dsimp only
      rw [hmodTime (ends.finds p hp)]
  | keep made files => rfl
  | land ends result_eq => rfl

/-! ## Whole compilations -/

/-- A compilation is right about the disk at the beginning, and so is the library. -/
structure Steady (lib : Library) (d : Disk) (order : Order) (x : (Draft × Phase) × Sheets) :
    Prop where
  doing : Doing lib [d] d order x.1.1 x.1.2
  memory : x.2.library.Right order.compiler.propertySyntax lib [d] d

section Steady
variable (hlib : lib.Rooted) (hclear : d.IsClear) (hsame : d.SameSources d')
include hlib hclear hsame

theorem Steady.goes (now : Text) (h : Steady lib d order ((draft, phase), m))
    (hphase : ∀ result, phase ≠ .land result) :
    Goes lib [d] d order draft phase (phase.turn now d' order draft m).1 ∧
      (phase.turn now d' order draft m).2.library.Right order.compiler.propertySyntax lib [d]
        d := by
  rw [h.doing.turn_congr hlib hsame h.memory]
  exact turn_goes h.memory rfl hlib hclear
    (List.forall_mem_singleton.mpr (Disk.keeps_refl d)) h.doing hphase

/-- A turn keeps a compilation steady. -/
theorem Steady.turn (h : Steady lib d order ((draft, phase), m)) :
    Steady lib d order (phase.turn now d' order draft m) := by
  by_cases hland : ∃ result, phase = .land result
  · obtain ⟨result, rfl⟩ := hland
    exact h
  · obtain ⟨hgoes, hmemory⟩ :=
      h.goes hlib hclear hsame now fun result hresult => hland ⟨result, hresult⟩
    exact ⟨hgoes.doing hlib List.mem_cons_self h.doing, hmemory⟩

theorem Steady.works {x y : (Draft × Phase) × Sheets} (h : Steady lib d order x)
    (hworks : Works now d' order x y) : Steady lib d order y := by
  induction hworks with
  | refl => exact h
  | tail _ hlast ih =>
    subst hlast
    exact ih.turn hlib hclear hsame

end Steady

/-- What a compilation comes to. -/
theorem Doing.css_eq {files : List Text} {css : Except Expand.Stop Text}
    (h : Doing lib seen d order draft (.ofCss files css)) :
    (order.compiler.compileAnew lib d order.path).css.mapError Expand.Stop.toFault =
      css.mapError Expand.Stop.toFault := by
  cases css with
  | ok css =>
    cases h with | stamp ends files stamped => rw [ends]
  | error stop =>
    cases h with | land ends result_eq =>
      rw [ends]
      exact result_eq.symm

end Service

namespace Compiler
open Service
variable {c : Compiler} {lib now : Library} {d d' : Disk} {path : Text} {reads : List Text}
  {compiled : Compiled} {w : World}

/-- **A compiler whose library is right gives what compiling anew gives at the beginning,** and
leaves the library right. -/
theorem compileFile_eq_beginning (hlib : lib.Rooted) (hclear : d.IsClear)
    (hsame : d.SameSources d') (hnow : now.Right c.propertySyntax lib [d] d)
    (h : c.compileFile path ⟨d', now, reads⟩ = (compiled, w)) :
    compiled.css.mapError Expand.Stop.toFault =
        (c.compileAnew lib d path).css.mapError Expand.Stop.toFault ∧
      w.disk = d' ∧ w.library.Right c.propertySyntax lib [d] d := by
  -- a compilation on its own is one of an instance that has no sheets
  let sheets : Sheets := ⟨⟨c.options, 0, 0, 0⟩, now, .empty 0, 0⟩
  obtain ⟨hdisk, draft, -, hworks⟩ :=
    @works_compileFile [] d' ⟨[], path, c⟩ sheets reads compiled w h
  have hstart : Steady lib d ⟨[], path, c⟩ ((.new, .resolve path []), sheets) :=
    ⟨.resolve .first, hnow⟩
  have hend := hstart.works hlib hclear hsame hworks
  exact ⟨hend.doing.css_eq.symm, hdisk, hend.memory⟩

end Compiler

end IndentedSass
