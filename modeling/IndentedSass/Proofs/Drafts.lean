import IndentedSass.Proofs.Calls
import IndentedSass.Proofs.LocatedFaults

/-!
# Compilations under way

While other calls run and files change, a compilation knows what it has read so far. This module
says in what sense that is right about the disk: a draft is how far compiling anew has got (`Asks`),
and each phase has reached what it claims (`Doing`). `Goes` lists what a phase can lead to while the
library of the instance is right. `turn_goes` shows that every turn of a compilation is of that kind
and leaves the library right, `Goes.doing` that the next phase is right again, and `Doing.closes`
that a compilation comes to an end.
-/

namespace IndentedSass

/-! ## Earlier disks -/

namespace Disk
variable {d d' : Disk}

/-- A disk of which another one may be a later state. They have the same paths, and a file that
shows an old time, in nanoseconds, has the text of that time. -/
structure Earlier (d d' : Disk) : Prop where
  paths : d.SamePaths d'
  dated : ∀ path f f', d.look path = .file f → d'.look path = .file f' →
    Service.Sheets.nanoseconds f.mtime = Service.Sheets.nanoseconds f'.mtime → f'.text = f.text

theorem look_of_isFile {path : Text} (h : d.isFile path = true) : ∃ f, d.look path = .file f := by
  rw [isFile] at h
  split at h
  · exact ⟨_, ‹_›⟩
  · cases h

theorem read_of_look {path : Text} {f : File} (h : d.look path = .file f) :
    d.read path = .ok f.text := by
  rw [read, h]

theorem modTime_of_look {path : Text} {f : File} (h : d.look path = .file f) :
    d.modTime path = .ok f.mtime := by
  rw [modTime, h]

/-- A file that has the same time later has the same text, since times tell texts apart. -/
theorem Earlier.keeps (h : d.Earlier d') : Keeps d d' := by
  intro path f hlook htime
  obtain ⟨f', hlook'⟩ := look_of_isFile ((h.paths.isFile path).symm.trans (isFile_of_look hlook))
  rw [modTime_of_look hlook'] at htime
  have htext := h.dated path f f' hlook hlook' (by rw [Except.ok.inj htime])
  rw [read_of_look hlook', htext]

theorem SamePaths.read_of_look (hd : d.SamePaths d') {path : Text}
    (h : d.look path = d'.look path) : d.read path = d'.read path := by
  rw [Disk.read, Disk.read, h, hd.isNative]

end Disk

namespace Library
variable {lib : Library} {way : PropertySyntax} {seen : List Disk} {d d' : Disk} {p : Text}
  {entry : CachedTree}

/-- The tree of a file depends on nothing but what its path reads. -/
theorem treeAt_congr (h : d.read (lib.toDisk p) = d'.read (lib.toDisk p)) :
    lib.treeAt way d p = lib.treeAt way d' p := by
  unfold treeAt read
  rw [h]

theorem modTime_congr (h : d.look (lib.toDisk p) = d'.look (lib.toDisk p)) :
    lib.modTime d p = lib.modTime d' p := by
  unfold modTime Disk.modTime
  rw [h]

/-- A target that is resolved has a time. -/
theorem Rooted.modTime (hlib : lib.Rooted) (h : lib.Gives d p) :
    ∃ time, lib.modTime d p = .ok time := by
  obtain ⟨f, hlook⟩ := Disk.look_of_isFile (hlib.isFile_toDisk h)
  exact ⟨f.mtime, modTime_eq_ok.mpr (Disk.modTime_of_look hlook)⟩

/-- What a library remembers is right: its trees were seen, and its targets are resolved as they
would be now. Otherwise it is like the given one, but for what is left open. -/
structure Right (now : Library) (way : PropertySyntax) (lib : Library) (seen : List Disk)
    (d : Disk) : Prop where
  kin : ∃ trees resolved choices,
    now = ((lib.withTrees trees).withResolved resolved).choosing choices
  remembers : ∀ p entry, (p, entry) ∈ now.trees.items → lib.Saw way seen p entry
  recalls : now.Recalls d

/-- A library that remembers nothing is right. -/
theorem right_of_empty (htrees : lib.trees.items = []) (hresolved : lib.resolved.items = []) :
    lib.Right way lib seen d where
  kin := ⟨lib.trees, lib.resolved, ⟨lib.resolved.victims, lib.handOver⟩, rfl⟩
  remembers p entry hentry := by
    rw [htrees] at hentry
    cases hentry
  recalls entry hentry := by
    rw [hresolved] at hentry
    cases hentry

namespace Right
variable {now : Library}

/-- What a library remembers is not looked at when a target is resolved anew. -/
theorem resolve_eq (h : now.Right way lib seen d) (d' : Disk) (uri file : Text) :
    now.resolve d' uri file = lib.resolve d' uri file := by
  obtain ⟨trees, resolved, choices, rfl⟩ := h.kin
  rfl

theorem modTime_eq (h : now.Right way lib seen d) (d' : Disk) (p : Text) :
    now.modTime d' p = lib.modTime d' p := by
  obtain ⟨trees, resolved, choices, rfl⟩ := h.kin
  rfl

theorem treeAt_eq (h : now.Right way lib seen d) (way' : PropertySyntax) (d' : Disk) (p : Text) :
    now.treeAt way' d' p = lib.treeAt way' d' p := by
  obtain ⟨trees, resolved, choices, rfl⟩ := h.kin
  rfl

theorem withResolved (h : now.Right way lib seen d) {resolved : Memo Text Text}
    (hrecalls : (now.withResolved resolved).Recalls d) :
    (now.withResolved resolved).Right way lib seen d where
  kin := by
    obtain ⟨trees, _, choices, rfl⟩ := h.kin
    exact ⟨trees, resolved, ⟨resolved.victims, choices.handOver⟩, rfl⟩
  remembers := h.remembers
  recalls := hrecalls

theorem withTrees (h : now.Right way lib seen d) {trees : Recent Text CachedTree}
    (htrees : ∀ p entry, (p, entry) ∈ trees.items → lib.Saw way seen p entry) :
    (now.withTrees trees).Right way lib seen d where
  kin := by
    obtain ⟨_, resolved, choices, rfl⟩ := h.kin
    exact ⟨trees, resolved, choices, rfl⟩
  remembers := htrees
  recalls := h.recalls

/-- Nor does it matter for what is remembered how things will be chosen from now on. -/
theorem choosing (h : now.Right way lib seen d) (choices : Choices) :
    (now.choosing choices).Right way lib seen d where
  kin := by
    obtain ⟨trees, resolved, _, rfl⟩ := h.kin
    exact ⟨trees, resolved, choices, rfl⟩
  remembers := h.remembers
  recalls := h.recalls

end Right

end Library

namespace Service

/-! ## Orders -/

namespace Order
variable {o : SheetOptions} {order order' : Order} {name style : Text}

/-- An order that can be made under some options. -/
def IsOf (o : SheetOptions) (order : Order) : Prop := ∃ name style, make o name style = .ok order

/-- An order names one of the styles, even if the request did not. -/
theorem IsOf.exists_style (h : order.IsOf o) : ∃ name style c, order =
    ⟨Sheets.keyOf name (Style.name style), Sheets.fileOf o.options.templateLocation name, c⟩ ∧
      Sheets.compilerFor o.options style = .ok c := by
  obtain ⟨name, text, h⟩ := h
  unfold make at h
  dsimp only at h
  generalize (if text.isEmpty then o.options.style else text) = text at h
  cases hstyle : Style.ofName? text with
  | none =>
    rw [hstyle] at h
    cases h
  | some style =>
    have hname : style.name = text := by
      rw [Style.ofName?] at hstyle
      have hfound := List.find?_some hstyle
      exact of_decide_eq_true hfound
    rw [hstyle, ← hname] at h
    dsimp only [Option.map_some] at h
    cases hc : Sheets.compilerFor o.options style with
    | error fault =>
      rw [hc] at h
      cases h
    | ok c =>
      rw [hc] at h
      cases h
      exact ⟨name, style, c, rfl, hc⟩

theorem colon_not_mem (style : Style) : Ascii.colon ∉ style.name := by
  cases style <;> decide +kernel

/-- No style has a colon in its name, so the last colon of a key divides it. -/
theorem keyOf_inj {name' : Text} {style style' : Style}
    (h : Sheets.keyOf name style.name = Sheets.keyOf name' style'.name) :
    name = name' ∧ style.name = style'.name := by
  have hcolon : (":" : Text) = [Ascii.colon] := by decide +kernel
  unfold Sheets.keyOf at h
  rw [hcolon] at h
  simp only [List.append_assoc, List.append_cancel_left_eq, List.singleton_append] at h
  -- if one style were a proper beginning of the other, that one would have a colon
  rcases List.append_eq_append_iff.mp h with ⟨rest, hname, hrest⟩ | ⟨rest, hname, hrest⟩ <;>
    rcases rest with _ | ⟨c, rest⟩
  · exact ⟨(List.cons.inj hrest).2, hname.trans (List.append_nil _) |>.symm⟩
  · refine absurd ?_ (colon_not_mem style')
    rw [hname, (List.cons.inj hrest).1]
    exact List.mem_append_right _ List.mem_cons_self
  · exact ⟨(List.cons.inj hrest).2.symm, hname.trans (List.append_nil _)⟩
  · refine absurd ?_ (colon_not_mem style)
    rw [hname, (List.cons.inj hrest).1]
    exact List.mem_append_right _ List.mem_cons_self

theorem name_inj {style style' : Style} (h : style.name = style'.name) : style = style' := by
  revert h
  cases style <;> cases style' <;> decide +kernel

/-- **The key of an order tells the order.** -/
theorem eq_of_key (h : order.IsOf o) (h' : order'.IsOf o) (hkey : order.key = order'.key) :
    order = order' := by
  obtain ⟨name, style, c, rfl, hc⟩ := h.exists_style
  obtain ⟨name', style', c', rfl, hc'⟩ := h'.exists_style
  obtain ⟨rfl, hstyle⟩ := keyOf_inj hkey
  obtain rfl := name_inj hstyle
  cases hc.symm.trans hc'
  rfl

end Order

/-- How all compilers of an instance read properties. -/
def SheetOptions.way (o : SheetOptions) : PropertySyntax := .ofText o.options.propertySyntax

/-- All orders of an instance read properties in the same way. -/
theorem Order.IsOf.propertySyntax {o : SheetOptions} {order : Order} (h : order.IsOf o) :
    order.compiler.propertySyntax = o.way := by
  obtain ⟨name, style, c, rfl, hc⟩ := h.exists_style
  exact Sheets.propertySyntax_compilerFor hc

/-! ## Drafts -/

section Drafts
variable {lib : Library} {seen : List Disk} {d d' : Disk} {order : Order} {draft : Draft}
  {uri file p : Text} {source : Source} {answers : List Expand.Answer} {shelf : Shelf}

/-- A compilation has loaded its own file and heard some answers, as compiling anew would. -/
structure Begun (lib : Library) (d : Disk) (order : Order) (p : Text) (source : Source)
    (answers : List Expand.Answer) (shelf : Shelf) : Prop where
  resolve : lib.resolve d order.path [] = .ok p
  tree : lib.treeAt order.compiler.propertySyntax d p = .ok source
  heard : Expand.Conversation (Expand.outlook (order.compiler.script p source))
    (order.compiler.importAnew lib d) ([], ⟨[(p, source)], [p]⟩) (answers, shelf)

theorem Begun.gives (h : Begun lib d order p source answers shelf) : lib.Gives d p :=
  Library.exists_of_resolve h.resolve

/-- What is on the shelf has been loaded from this disk, and so have the answers. -/
theorem Begun.right (h : Begun lib d order p source answers shelf) :
    shelf.Right order.compiler.propertySyntax lib d ∧
      ∀ source path, .ok (source, path) ∈ answers → lib.Gives d path :=
  Compiler.right_conversation h.heard (Shelf.right_first h.gives h.tree) fun _ _ h => by cases h

/-- A draft is how far compiling anew has got, and a target is to be found next. -/
inductive Asks (lib : Library) (d : Disk) (order : Order) : Draft → Text → Text → Prop
  | first : Asks lib d order .new order.path []
  | next {p uri file : Text} {source : Source} {answers : List Expand.Answer} {shelf : Shelf}
    (begun : Begun lib d order p source answers shelf)
    (asks : Expand.outlook (order.compiler.script p source) answers = .asks (uri, file)) :
    Asks lib d order ⟨some (source, p), answers, shelf⟩ uri file

/-- The asking file is on the disk, so its path can be part of a key. -/
theorem Asks.zero_not_mem (h : Asks lib d order draft uri file) (hlib : lib.Rooted)
    (hclear : d.IsClear) : 0 ∉ file := by
  cases h with
  | first => exact List.not_mem_nil
  | next begun asks =>
    have hfrom : lib.Gives d file := Expand.outlook_asks_from begun.gives begun.right.2 asks
    exact hlib.not_mem hclear hfrom

namespace Draft

/-- The draft after the answer to a request, with the files that there are now. -/
def answered (draft : Draft) (c : Compiler) (lib : Library) (d : Disk) (uri file : Text) :
    Draft × Phase :=
  match lib.resolve d uri file with
  | .error fault => draft.unresolved c uri fault
  | .ok p =>
    let (tree, shelf) := draft.shelf.load (lib.treeAt c.propertySyntax d) p
    hear { draft with shelf } c (tree.map fun source => (source, p))

variable {c : Compiler}

theorem answered_of_error {fault : Fault} (h : lib.resolve d uri file = .error fault) :
    draft.answered c lib d uri file = draft.unresolved c uri fault := by
  unfold answered
  rw [h]

/-- A file that this compilation has loaded before is not loaded again. -/
theorem answered_of_pending (h : lib.resolve d uri file = .ok p)
    (hp : draft.shelf.pending.lookup p = some source) :
    draft.answered c lib d uri file = draft.hear c (.ok (source, p)) := by
  unfold answered
  rw [h]
  dsimp only
  rw [Shelf.load_of_some hp]
  rfl

/-- A file that it has not loaded is loaded from the disk. -/
theorem answered_of_new (h : lib.resolve d uri file = .ok p)
    (hp : draft.shelf.pending.lookup p = none) :
    draft.answered c lib d uri file = draft.loaded c p (lib.treeAt c.propertySyntax d p) := by
  unfold answered
  rw [h]
  dsimp only
  rw [Shelf.load_of_none hp]
  rfl

/-- An answer is what compiling anew hears next. -/
theorem answered_next {answer : Expand.Answer} {shelf' : Shelf}
    (h : (c.importAnew lib d).load uri file shelf = (answer, shelf')) :
    answered ⟨some (source, p), answers, shelf⟩ c lib d uri file =
      (⟨some (source, p), answers ++ [answer], shelf'⟩,
        next ⟨some (source, p), answers ++ [answer], shelf'⟩ c source p) := by
  cases hresolve : lib.resolve d uri file with
  | error fault =>
    rw [Compiler.importAnew_of_error hresolve] at h
    cases h
    rw [answered_of_error hresolve]
    rfl
  | ok q =>
    rw [Compiler.importAnew_of_ok hresolve] at h
    cases h
    unfold answered
    rw [hresolve]
    rfl

end Draft

/-! ## Phases -/

/-- The times of files on a disk. -/
def Stamped (lib : Library) (d : Disk) : List Text → List Int → Prop :=
  List.Forall₂ fun p stamp => ∃ time, lib.modTime d p = .ok time ∧ Sheets.nanoseconds time = stamp

/-- A sheet that was compiled from the files of a disk, with their times. -/
structure Made (lib : Library) (d : Disk) (order : Order) (sheet : Sheet) : Prop where
  compiled : order.compiler.compileAnew lib d order.path = ⟨.ok sheet.css, sheet.files⟩
  stamped : Stamped lib d sheet.files sheet.modTimes

/-- What compiling anew gives, with the files of a draft. -/
def Ends (lib : Library) (d : Disk) (order : Order) (draft : Draft)
    (css : Except Expand.Stop Text) : Prop :=
  order.compiler.compileAnew lib d order.path = ⟨css, draft.shelf.files⟩

/-- The tree of a file is wanted, and it has not been loaded before. -/
structure Wants (lib : Library) (d : Disk) (order : Order) (draft : Draft) (p : Text) : Prop where
  asks : ∃ uri file, Asks lib d order draft uri file ∧ lib.resolve d uri file = .ok p
  new : draft.shelf.pending.lookup p = none

/-- A compilation is right about the disk. -/
inductive Doing (lib : Library) (seen : List Disk) (d : Disk) (order : Order) (draft : Draft) :
    Phase → Prop
  | resolve {uri file : Text} (asks : Asks lib d order draft uri file) :
    Doing lib seen d order draft (.resolve uri file)
  | seek {p : Text} (wants : Wants lib d order draft p) : Doing lib seen d order draft (.seek p)
  | date {p : Text} {entry : CachedTree} (wants : Wants lib d order draft p)
    (saw : lib.Saw order.compiler.propertySyntax seen p entry) :
    Doing lib seen d order draft (.date p entry)
  | drop {p : Text} (wants : Wants lib d order draft p) : Doing lib seen d order draft (.drop p)
  | read {p : Text} (wants : Wants lib d order draft p) : Doing lib seen d order draft (.read p)
  | finish {css : Text} (ends : Ends lib d order draft (.ok css))
    (right : draft.shelf.Right order.compiler.propertySyntax lib d) :
    Doing lib seen d order draft (.finish css)
  | commit {css : Text} {rest : List (Text × Source)} (ends : Ends lib d order draft (.ok css))
    (right : draft.shelf.Right order.compiler.propertySyntax lib d)
    (rest_subset : rest ⊆ draft.shelf.pending) :
    Doing lib seen d order draft (.commit css rest)
  | store {css p : Text} {entry : CachedTree} {rest : List (Text × Source)}
    (ends : Ends lib d order draft (.ok css))
    (right : draft.shelf.Right order.compiler.propertySyntax lib d)
    (rest_subset : rest ⊆ draft.shelf.pending)
    (saw : lib.Saw order.compiler.propertySyntax seen p entry) :
    Doing lib seen d order draft (.store css p entry rest)
  | stamp {css : Text} {times : List Int} {done rest : List Text}
    (ends : Ends lib d order draft (.ok css)) (files : draft.shelf.files = done ++ rest)
    (stamped : Stamped lib d done times) : Doing lib seen d order draft (.stamp css times rest)
  | keep {sheet : Sheet} (made : Made lib d order sheet) (files : sheet.files = draft.shelf.files) :
    Doing lib seen d order draft (.keep sheet)
  | land {css : Except Expand.Stop Text} {result : Except Fault (Nat × Sheet)}
    (ends : Ends lib d order draft css)
    (result_eq : result.map (fun entry => entry.2.css) = css.mapError Expand.Stop.toFault) :
    Doing lib seen d order draft (.land result)

/-- After an answer the compilation asks for the next target, has failed, or is done. -/
theorem Begun.doing_next (h : Begun lib d order p source answers shelf) :
    Doing lib seen d order ⟨some (source, p), answers, shelf⟩
      (Draft.next ⟨some (source, p), answers, shelf⟩ order.compiler source p) := by
  rcases hview : Expand.outlook (order.compiler.script p source) answers with
    ⟨uri, file⟩ | (stop | css)
  · rw [Draft.next_of_asks hview]
    exact .resolve (.next h hview)
  · rw [Draft.next_of_error hview]
    exact .land (Compiler.compileAnew_of_conversation h.resolve h.tree h.heard hview) rfl
  · rw [Draft.next_of_ok hview]
    exact .finish (Compiler.compileAnew_of_conversation h.resolve h.tree h.heard hview) h.right.1

/-- **An answer keeps a compilation right**, whether it is the first or a later one. -/
theorem Asks.doing_answered (h : Asks lib d order draft uri file) :
    Doing lib seen d order (draft.answered order.compiler lib d uri file).1
      (draft.answered order.compiler lib d uri file).2 := by
  cases h with
  | first =>
    cases hresolve : lib.resolve d order.path [] with
    | error fault =>
      rw [Draft.answered_of_error hresolve]
      exact .land (Compiler.compileAnew_of_unresolved hresolve) rfl
    | ok p =>
      rw [Draft.answered_of_new hresolve rfl]
      cases htree : lib.treeAt order.compiler.propertySyntax d p with
      | error fault => exact .land (Compiler.compileAnew_of_error hresolve htree) rfl
      | ok source => exact Begun.doing_next ⟨hresolve, htree, .refl⟩
  | next begun asks =>
    rename_i p source answers shelf
    rcases hload : (order.compiler.importAnew lib d).load uri file shelf with ⟨answer, shelf'⟩
    rw [Draft.answered_next hload]
    exact Begun.doing_next ⟨begun.resolve, begun.tree, begun.heard.tail (.mk asks hload)⟩

/-! ## Steps -/

/-- What a phase can lead to while the memory of the instance is right. -/
inductive Goes (lib : Library) (seen : List Disk) (d : Disk) (order : Order) (draft : Draft) :
    Phase → Draft × Phase → Prop
  | answered {uri file : Text} : Goes lib seen d order draft (.resolve uri file)
      (draft.answered order.compiler lib d uri file)
  | seeks {uri file p : Text} (resolve : lib.resolve d uri file = .ok p)
    (new : draft.shelf.pending.lookup p = none) :
    Goes lib seen d order draft (.resolve uri file) (draft, .seek p)
  | reads {uri file p : Text} (resolve : lib.resolve d uri file = .ok p)
    (new : draft.shelf.pending.lookup p = none) :
    Goes lib seen d order draft (.resolve uri file) (draft, .read p)
  | unknown {p : Text} : Goes lib seen d order draft (.seek p) (draft, .read p)
  | known {p : Text} {entry : CachedTree}
    (saw : lib.Saw order.compiler.propertySyntax seen p entry) :
    Goes lib seen d order draft (.seek p) (draft, .date p entry)
  | current {p : Text} {entry : CachedTree} : Goes lib seen d order draft (.date p entry)
      (draft.loaded order.compiler p (lib.treeAt order.compiler.propertySyntax d p))
  | outdated {p : Text} {entry : CachedTree} :
    Goes lib seen d order draft (.date p entry) (draft, .drop p)
  | dropped {p : Text} : Goes lib seen d order draft (.drop p) (draft, .read p)
  | read {p : Text} : Goes lib seen d order draft (.read p)
      (draft.loaded order.compiler p (lib.treeAt order.compiler.propertySyntax d p))
  | finished {css : Text} {rest : List (Text × Source)} (rest_subset : rest ⊆ draft.shelf.pending) :
    Goes lib seen d order draft (.finish css) (draft, .commit css rest)
  | committed {css : Text} :
    Goes lib seen d order draft (.commit css []) (draft, .stamp css [] draft.shelf.files)
  | timed {css p : Text} {source : Source} {rest : List (Text × Source)} {time : Int}
    (modTime : lib.modTime d p = .ok time) :
    Goes lib seen d order draft (.commit css ((p, source) :: rest))
      (draft, .store css p ⟨source, time⟩ rest)
  | untimed {css : Text} {first : Text × Source} {rest : List (Text × Source)} :
    Goes lib seen d order draft (.commit css (first :: rest)) (draft, .commit css rest)
  | stored {css p : Text} {entry : CachedTree} {rest : List (Text × Source)} :
    Goes lib seen d order draft (.store css p entry rest) (draft, .commit css rest)
  | stamped {css now : Text} {times : List Int} :
    Goes lib seen d order draft (.stamp css times [])
      (draft, .keep ⟨css, order.compiler.options.style, draft.shelf.files, times, now⟩)
  | stamp {css file : Text} {times : List Int} {rest : List Text} {time : Int}
    (modTime : lib.modTime d file = .ok time) :
    Goes lib seen d order draft (.stamp css times (file :: rest))
      (draft, .stamp css (times ++ [Sheets.nanoseconds time]) rest)
  | unstamped {css file : Text} {times : List Int} {rest : List Text} {fault : Fault}
    {result : Except Fault (Nat × Sheet)} (modTime : lib.modTime d file = .error fault) :
    Goes lib seen d order draft (.stamp css times (file :: rest)) (draft, .land result)
  | kept {sheet : Sheet} (n : Nat) :
    Goes lib seen d order draft (.keep sheet) (draft, .land (.ok (n, sheet)))

/-- Loading the tree of a wanted file is answering the target that led to it. -/
theorem Wants.loaded_eq (h : Wants lib d order draft p) : ∃ uri file,
    Asks lib d order draft uri file ∧
      draft.loaded order.compiler p (lib.treeAt order.compiler.propertySyntax d p) =
        draft.answered order.compiler lib d uri file := by
  obtain ⟨⟨uri, file, hasks, hresolve⟩, hnew⟩ := h
  exact ⟨uri, file, hasks, (Draft.answered_of_new hresolve hnew).symm⟩

theorem Wants.doing_loaded (h : Wants lib d order draft p) :
    Doing lib seen d order
      (draft.loaded order.compiler p (lib.treeAt order.compiler.propertySyntax d p)).1
      (draft.loaded order.compiler p (lib.treeAt order.compiler.propertySyntax d p)).2 := by
  obtain ⟨uri, file, hasks, hloaded⟩ := h.loaded_eq
  rw [hloaded]
  exact hasks.doing_answered

/-- Every file of a compilation that has ended has a time. -/
theorem Ends.modTime {css : Except Expand.Stop Text} (h : Ends lib d order draft css)
    (hlib : lib.Rooted) (hfile : file ∈ draft.shelf.files) :
    ∃ time, lib.modTime d file = .ok time := by
  have hgives := order.compiler.gives_of_compileAnew lib d order.path
  rw [h] at hgives
  exact hlib.modTime (hgives file hfile)

/-- **A compilation stays right.** -/
theorem Goes.doing {phase : Phase} {y : Draft × Phase} (hlib : lib.Rooted) (hd : d ∈ seen)
    (hgoes : Goes lib seen d order draft phase y) (h : Doing lib seen d order draft phase) :
    Doing lib seen d order y.1 y.2 := by
  cases hgoes with
  | answered =>
    obtain ⟨hasks⟩ := h
    exact hasks.doing_answered
  | seeks resolve new =>
    obtain ⟨hasks⟩ := h
    exact .seek ⟨⟨_, _, hasks, resolve⟩, new⟩
  | reads resolve new =>
    obtain ⟨hasks⟩ := h
    exact .read ⟨⟨_, _, hasks, resolve⟩, new⟩
  | unknown =>
    cases h with | seek wants => exact .read wants
  | known saw =>
    cases h with | seek wants => exact .date wants saw
  | current =>
    cases h with | date wants saw => exact wants.doing_loaded
  | outdated =>
    cases h with | date wants saw => exact .drop wants
  | dropped =>
    cases h with | drop wants => exact .read wants
  | read =>
    cases h with | read wants => exact wants.doing_loaded
  | finished rest_subset =>
    cases h with | finish ends right => exact .commit ends right rest_subset
  | committed =>
    cases h with | commit ends right rest_subset =>
      exact .stamp ends (List.nil_append _).symm .nil
  | timed modTime =>
    cases h with | commit ends right rest_subset =>
      have htree := (right.pending _ _ (rest_subset List.mem_cons_self)).2
      exact .store ends right (List.subset_of_cons_subset rest_subset)
        (Library.saw_of_treeAt hd htree modTime)
  | untimed =>
    cases h with | commit ends right rest_subset =>
      exact .commit ends right (List.subset_of_cons_subset rest_subset)
  | stored =>
    cases h with | store ends right rest_subset saw => exact .commit ends right rest_subset
  | stamped =>
    cases h with | stamp ends files stamped =>
      rw [List.append_nil] at files
      exact .keep ⟨ends, files ▸ stamped⟩ rfl
  | stamp modTime =>
    cases h with | stamp ends files stamped =>
      refine .stamp ends (files.trans (List.append_cons ..)) ?_
      exact List.rel_append stamped (.cons ⟨_, modTime, rfl⟩ .nil)
  | unstamped modTime =>
    -- a listed file cannot have gone
    cases h with | stamp ends files stamped =>
      have hfile : _ ∈ draft.shelf.files :=
        files ▸ List.mem_append_right _ List.mem_cons_self
      obtain ⟨time, htime⟩ := ends.modTime hlib hfile
      cases modTime.symm.trans htime
  | kept n =>
    cases h with | keep made files =>
      exact .land (made.compiled.trans (by rw [files])) rfl

/-! ## Every compilation ends -/

/-- A compilation ends, however it goes on. -/
def Closes (lib : Library) (seen : List Disk) (d : Disk) (order : Order) : Draft × Phase → Prop :=
  Acc fun y x => Goes lib seen d order x.1 x.2 y

theorem closes_land (result : Except Fault (Nat × Sheet)) :
    Closes lib seen d order (draft, .land result) :=
  ⟨_, fun _ hgoes => by cases hgoes⟩

theorem closes_keep (sheet : Sheet) : Closes lib seen d order (draft, .keep sheet) := by
  refine ⟨_, fun _ hgoes => ?_⟩
  cases hgoes
  exact closes_land _

/-- The induction is on the files that have no stamp yet. -/
theorem closes_stamp (css : Text) (times : List Int) (rest : List Text) :
    Closes lib seen d order (draft, .stamp css times rest) := by
  induction rest generalizing times with
  | nil =>
    refine ⟨_, fun _ hgoes => ?_⟩
    cases hgoes
    exact closes_keep _
  | cons file rest ih =>
    refine ⟨_, fun _ hgoes => ?_⟩
    cases hgoes with
    | stamp => exact ih _
    | unstamped => exact closes_land _

/-- The induction is on the trees that are still to be handed over. -/
theorem closes_commit (css : Text) (rest : List (Text × Source)) :
    Closes lib seen d order (draft, .commit css rest) := by
  induction rest with
  | nil =>
    refine ⟨_, fun _ hgoes => ?_⟩
    cases hgoes
    exact closes_stamp _ _ _
  | cons first rest ih =>
    refine ⟨_, fun _ hgoes => ?_⟩
    cases hgoes with
    | timed =>
      refine ⟨_, fun _ hgoes => ?_⟩
      cases hgoes
      exact ih
    | untimed => exact ih

theorem closes_finish (css : Text) : Closes lib seen d order (draft, .finish css) := by
  refine ⟨_, fun _ hgoes => ?_⟩
  cases hgoes
  exact closes_commit _ _

theorem closes_store {css : Text} {entry : CachedTree} {rest : List (Text × Source)} :
    Closes lib seen d order (draft, .store css p entry rest) := by
  refine ⟨_, fun _ hgoes => ?_⟩
  cases hgoes
  exact closes_commit _ _

section Wanting
variable (hloaded : Closes lib seen d order
  (draft.loaded order.compiler p (lib.treeAt order.compiler.propertySyntax d p)))
include hloaded

theorem closes_read : Closes lib seen d order (draft, .read p) := by
  refine ⟨_, fun _ hgoes => ?_⟩
  cases hgoes
  exact hloaded

theorem closes_drop : Closes lib seen d order (draft, .drop p) := by
  refine ⟨_, fun _ hgoes => ?_⟩
  cases hgoes
  exact closes_read hloaded

theorem closes_date (entry : CachedTree) : Closes lib seen d order (draft, .date p entry) := by
  refine ⟨_, fun _ hgoes => ?_⟩
  cases hgoes with
  | current => exact hloaded
  | outdated => exact closes_drop hloaded

/-- A wanted file is looked for among the remembered trees before it is read, so this is the longest
way to load it. -/
theorem closes_seek : Closes lib seen d order (draft, .seek p) := by
  refine ⟨_, fun _ hgoes => ?_⟩
  cases hgoes with
  | unknown => exact closes_read hloaded
  | known => exact closes_date hloaded _

end Wanting

/-- A target that is resolved is answered at once or after its file has been loaded. -/
theorem closes_resolve
    (h : Closes lib seen d order (draft.answered order.compiler lib d uri file)) :
    Closes lib seen d order (draft, .resolve uri file) := by
  refine ⟨_, fun _ hgoes => ?_⟩
  cases hgoes with
  | answered => exact h
  | seeks resolve new =>
    rw [Draft.answered_of_new resolve new] at h
    exact closes_seek h
  | reads resolve new =>
    rw [Draft.answered_of_new resolve new] at h
    exact closes_read h

/-- A compilation that has begun comes to an end on a disk that does not change. -/
theorem Begun.exists_end (h : Begun lib d order p source answers shelf) :
    ∃ answers' shelf' result, Expand.Conversation (Expand.outlook (order.compiler.script p source))
        (order.compiler.importAnew lib d) (answers, shelf) (answers', shelf') ∧
      Expand.outlook (order.compiler.script p source) answers' = .ends result :=
  Expand.exists_end order.compiler.settings order.compiler.fuel p source
    (order.compiler.importAnew lib d) shelf (h.heard.heard Expand.heard_nil)

/-- A compilation that has begun ends, whatever it has heard. -/
theorem Begun.closes_next (h : Begun lib d order p source answers shelf) :
    Closes lib seen d order (⟨some (source, p), answers, shelf⟩,
      Draft.next ⟨some (source, p), answers, shelf⟩ order.compiler source p) := by
  -- answers come only from the disk, so that the rest of the conversation is fixed and finite
  obtain ⟨answers', shelf', result, hrest, hends⟩ := h.exists_end
  clear h
  generalize hx : (answers, shelf) = x at hrest
  induction hrest using Relation.ReflTransGen.head_induction_on generalizing answers shelf with
  | refl =>
    cases hx
    rcases result with stop | css
    · rw [Draft.next_of_error hends]
      exact closes_land _
    · rw [Draft.next_of_ok hends]
      exact closes_finish _
  | head hfirst _ ih =>
    obtain ⟨asks, load⟩ := hfirst
    cases hx
    rw [Draft.next_of_asks asks]
    refine closes_resolve ?_
    rw [Draft.answered_next load]
    exact ih rfl

/-- An answer leads on to the end. -/
theorem Asks.closes_answered (h : Asks lib d order draft uri file) :
    Closes lib seen d order (draft.answered order.compiler lib d uri file) := by
  cases h with
  | first =>
    cases hresolve : lib.resolve d order.path [] with
    | error fault =>
      rw [Draft.answered_of_error hresolve]
      exact closes_land _
    | ok p =>
      rw [Draft.answered_of_new hresolve rfl]
      cases htree : lib.treeAt order.compiler.propertySyntax d p with
      | error fault => exact closes_land _
      | ok source => exact Begun.closes_next ⟨hresolve, htree, .refl⟩
  | next begun asks =>
    rename_i p source answers shelf
    rcases hload : (order.compiler.importAnew lib d).load uri file shelf with ⟨answer, shelf'⟩
    rw [Draft.answered_next hload]
    exact Begun.closes_next ⟨begun.resolve, begun.tree, begun.heard.tail (.mk asks hload)⟩

theorem Wants.closes_loaded (h : Wants lib d order draft p) : Closes lib seen d order
    (draft.loaded order.compiler p (lib.treeAt order.compiler.propertySyntax d p)) := by
  obtain ⟨uri, file, hasks, hloaded⟩ := h.loaded_eq
  rw [hloaded]
  exact hasks.closes_answered

/-- **Every compilation ends.** -/
theorem Doing.closes {phase : Phase} (h : Doing lib seen d order draft phase) :
    Closes lib seen d order (draft, phase) := by
  cases h with
  | resolve asks => exact closes_resolve asks.closes_answered
  | seek wants => exact closes_seek wants.closes_loaded
  | date wants saw => exact closes_date wants.closes_loaded _
  | drop wants => exact closes_drop wants.closes_loaded
  | read wants => exact closes_read wants.closes_loaded
  | finish => exact closes_finish _
  | commit => exact closes_commit _ _
  | store => exact closes_store
  | stamp => exact closes_stamp _ _ _
  | keep => exact closes_keep _
  | land => exact closes_land _

/-! ## Turns -/

section Turns
variable {way : PropertySyntax} {m : Sheets} {now : Text}
  (hm : m.library.Right way lib seen d) (hway : order.compiler.propertySyntax = way)
include hm

/-- A remembered target is resolved as it would be now, so it makes no difference that it was
remembered. -/
theorem goes_resolve (hfile : 0 ∉ file) :
    Goes lib seen d order draft (.resolve uri file)
        ((Phase.resolve uri file).turn now d order draft m).1 ∧
      ((Phase.resolve uri file).turn now d order draft m).2.library.Right way lib seen d := by
  obtain ⟨resolved, hcached, hrecalls⟩ := hm.recalls.resolveCached uri hfile
  have hright := hm.withResolved hrecalls
  rw [hm.resolve_eq] at hcached
  cases hresolve : lib.resolve d uri file with
  | error fault =>
    rw [hresolve] at hcached
    have hanswered : Goes lib seen d order draft (.resolve uri file) _ := .answered
    rw [Draft.answered_of_error hresolve] at hanswered
    unfold Phase.turn
    dsimp only
    rw [hcached]
    exact ⟨hanswered, hright⟩
  | ok p =>
    rw [hresolve] at hcached
    unfold Phase.turn
    dsimp only
    rw [hcached]
    refine ⟨?_, hright⟩
    dsimp only
    unfold Draft.resolved
    cases hpending : draft.shelf.pending.lookup p with
    | some source =>
      have hanswered : Goes lib seen d order draft (.resolve uri file) _ := .answered
      rw [Draft.answered_of_pending hresolve hpending] at hanswered
      exact hanswered
    | none =>
      dsimp only
      split
      · exact .seeks hresolve hpending
      · exact .reads hresolve hpending

/-- A remembered tree with the time of the file is the tree of the file, since the disk keeps what
it was seen with. -/
theorem goes_date {entry : CachedTree} (hkeeps : ∀ d₀ ∈ seen, Disk.Keeps d₀ d)
    (hsaw : lib.Saw order.compiler.propertySyntax seen p entry) :
    Goes lib seen d order draft (.date p entry) ((Phase.date p entry).turn now d order draft m).1 ∧
      ((Phase.date p entry).turn now d order draft m).2.library.Right way lib seen d := by
  unfold Phase.turn
  dsimp only
  rw [hm.modTime_eq]
  cases htime : lib.modTime d p with
  | error fault => exact ⟨.outdated, hm⟩
  | ok time =>
    dsimp only
    split
    · rename_i hsame
      have hcurrent : Goes lib seen d order draft (.date p entry) _ := .current
      rw [hsaw.treeAt hkeeps (hsame ▸ htime)] at hcurrent
      exact ⟨hcurrent, hm⟩
    · exact ⟨.outdated, hm⟩

/-- Whatever the order in which the trees are handed over, all of them have been loaded. -/
theorem goes_finish (css : Text) :
    Goes lib seen d order draft (.finish css) ((Phase.finish css).turn now d order draft m).1 ∧
      ((Phase.finish css).turn now d order draft m).2.library.Right way lib seen d := by
  refine ⟨.finished ?_, hm⟩
  split
  · exact (m.library.handOver.perm draft.shelf.pending).subset
  · exact List.nil_subset _

theorem goes_commit (css : Text) (rest : List (Text × Source)) :
    Goes lib seen d order draft (.commit css rest)
        ((Phase.commit css rest).turn now d order draft m).1 ∧
      ((Phase.commit css rest).turn now d order draft m).2.library.Right way lib seen d := by
  rcases rest with _ | ⟨⟨p, source⟩, rest⟩
  · exact ⟨.committed, hm⟩
  · unfold Phase.turn
    dsimp only
    rw [hm.modTime_eq]
    cases htime : lib.modTime d p with
    | error fault => exact ⟨.untimed, hm⟩
    | ok time => exact ⟨.timed htime, hm⟩

theorem goes_stamp (css : Text) (times : List Int) (rest : List Text) :
    Goes lib seen d order draft (.stamp css times rest)
        ((Phase.stamp css times rest).turn now d order draft m).1 ∧
      ((Phase.stamp css times rest).turn now d order draft m).2.library.Right way lib seen d := by
  rcases rest with _ | ⟨file, rest⟩
  · exact ⟨.stamped, hm⟩
  · unfold Phase.turn
    dsimp only
    rw [hm.modTime_eq]
    cases htime : lib.modTime d file with
    | error fault => exact ⟨.unstamped htime, hm⟩
    | ok time => exact ⟨.stamp htime, hm⟩

include hway

/-- Looking for a tree may reorder those that are remembered, and each was seen. -/
theorem goes_seek (p : Text) :
    Goes lib seen d order draft (.seek p) ((Phase.seek p).turn now d order draft m).1 ∧
      ((Phase.seek p).turn now d order draft m).2.library.Right way lib seen d := by
  have hget : ∀ q entry, (q, entry) ∈ (m.library.trees.get? p).2.items →
      lib.Saw way seen q entry :=
    fun q entry hentry => hm.remembers q entry (Recent.laws.mem_get _ _ _ hentry)
  have hfound : ∀ entry, (m.library.trees.get? p).1 = some entry → lib.Saw way seen p entry :=
    fun entry hentry => hm.remembers p entry (Recent.mem_of_get? hentry)
  unfold Phase.turn
  dsimp only
  rcases hresult : m.library.trees.get? p with ⟨_ | entry, trees⟩ <;> rw [hresult] at hget hfound
  · exact ⟨.unknown, hm.withTrees hget⟩
  · refine ⟨.known ?_, hm.withTrees hget⟩
    rw [hway]
    exact hfound entry rfl

/-- **A turn of a compilation is a step that it can take**, and leaves the library right. -/
theorem turn_goes {phase : Phase} (hlib : lib.Rooted) (hclear : d.IsClear)
    (hkeeps : ∀ d₀ ∈ seen, Disk.Keeps d₀ d) (h : Doing lib seen d order draft phase)
    (hphase : ∀ result, phase ≠ .land result) :
    Goes lib seen d order draft phase (phase.turn now d order draft m).1 ∧
      (phase.turn now d order draft m).2.library.Right way lib seen d := by
  cases h with
  | resolve asks => exact goes_resolve hm (asks.zero_not_mem hlib hclear)
  | seek wants => exact goes_seek hm hway _
  | date wants saw => exact goes_date hm hkeeps saw
  | drop wants =>
    exact ⟨.dropped, hm.withTrees fun q entry hentry =>
      hm.remembers q entry (Recent.laws.mem_erase _ _ _ hentry)⟩
  | @read p wants =>
    have hread := @Goes.read lib seen d order draft p
    rw [← hm.treeAt_eq] at hread
    exact ⟨hread, hm⟩
  | finish ends right => exact goes_finish hm _
  | commit ends right rest_subset => exact goes_commit hm _ _
  | store ends right rest_subset saw =>
    refine ⟨.stored, hm.withTrees fun q entry hentry => ?_⟩
    rcases Recent.laws.mem_add _ _ _ _ hentry with hnew | hold
    · cases hnew
      exact hway ▸ saw
    · exact hm.remembers q entry hold
  | stamp ends files stamped => exact goes_stamp hm _ _ _
  | keep made files => exact ⟨.kept _, hm⟩
  | land => exact absurd rfl (hphase _)

end Turns

/-! ## Kept sheets -/

/-- What an instance remembers is right: its trees were seen, its targets are resolved as they would
be now, and each kept sheet was made from the files of a disk that was seen. -/
structure Sheets.Right (o : SheetOptions) (lib : Library) (seen : List Disk) (d : Disk)
    (m : Sheets) : Prop where
  setup : m.setup = o
  memory : m.library.Right o.way lib seen d
  kept : ∀ key entry, (key, entry) ∈ m.kept.items → ∃ order : Order, order.IsOf o ∧
    order.key = key ∧ ∃ d₀ ∈ seen, Made lib d₀ order entry.2

namespace Sheets.Right
variable {o : SheetOptions} {m : Sheets}

theorem withLibrary (h : m.Right o lib seen d) {now : Library}
    (hnow : now.Right o.way lib seen d) : (m.withLibrary now).Right o lib seen d :=
  ⟨h.setup, hnow, h.kept⟩

theorem withKept (h : m.Right o lib seen d) {kept : Recent Text (Nat × Sheet)}
    (hkept : ∀ entry ∈ kept.items, entry ∈ m.kept.items) :
    (m.withKept kept).Right o lib seen d :=
  ⟨h.setup, h.memory, fun key entry hentry => h.kept key entry (hkept _ hentry)⟩

/-- A sheet that is kept was made on a disk that has been seen. -/
theorem keep (h : m.Right o lib seen d) (hd : d ∈ seen) (horder : order.IsOf o) {sheet : Sheet}
    (hmade : Made lib d order sheet) : (m.keep order.key sheet).2.Right o lib seen d where
  setup := h.setup
  memory := h.memory
  kept key entry hentry := by
    rcases Recent.laws.mem_add _ _ _ _ hentry with hnew | hold
    · cases hnew
      exact ⟨order, horder, rfl, d, hd, hmade⟩
    · exact h.kept key entry hold

end Sheets.Right

/-- Only keeping a sheet changes more than the library. -/
theorem turn_eq_withLibrary {m : Sheets} {now : Text} {phase : Phase}
    (hphase : ∀ sheet, phase ≠ .keep sheet) : (phase.turn now d order draft m).2 =
      m.withLibrary (phase.turn now d order draft m).2.library := by
  unfold Phase.turn
  split
  · split <;> rfl
  · split <;> rfl
  · split
    · split <;> rfl
    · rfl
  · rfl
  · rfl
  · rfl
  · rfl
  · split <;> rfl
  · rfl
  · rfl
  · split <;> rfl
  · exact absurd rfl (hphase _)
  · rfl

/-- A turn leaves the memory of an instance right. -/
theorem turn_right {o : SheetOptions} {m : Sheets} {now : Text} {phase : Phase}
    (hm : m.Right o lib seen d) (horder : order.IsOf o) (hd : d ∈ seen)
    (h : Doing lib seen d order draft phase)
    (hlibrary : (phase.turn now d order draft m).2.library.Right o.way lib seen d) :
    (phase.turn now d order draft m).2.Right o lib seen d := by
  by_cases hkeep : ∃ sheet, phase = .keep sheet
  · obtain ⟨sheet, rfl⟩ := hkeep
    cases h with | keep made files => exact hm.keep hd horder made
  · rw [turn_eq_withLibrary fun sheet hsheet => hkeep ⟨sheet, hsheet⟩]
    exact hm.withLibrary hlibrary

/-! ## Writing -/

theorem Shelf.Right.congr {way : PropertySyntax} (h : shelf.Right way lib d) (hd : d.SamePaths d')
    (hsame : ∀ p ∈ shelf.files, lib.treeAt way d p = lib.treeAt way d' p) :
    shelf.Right way lib d' where
  pending p source hmem := by
    obtain ⟨hfile, htree⟩ := h.pending p source hmem
    exact ⟨hfile, hsame p hfile ▸ htree⟩
  files p hp := (h.files p hp).of_samePaths hd

/-- Stamps are those of another disk on which the files look the same. -/
theorem Stamped.congr {files : List Text} {times : List Int} (h : Stamped lib d files times)
    (hsame : ∀ p ∈ files, d.look (lib.toDisk p) = d'.look (lib.toDisk p)) :
    Stamped lib d' files times := by
  induction h with
  | nil => exact .nil
  | cons hfirst _ ih =>
    obtain ⟨time, htime, hstamp⟩ := hfirst
    obtain ⟨hlook, hrest⟩ := List.forall_mem_cons.mp hsame
    exact .cons ⟨time, (Library.modTime_congr hlook).symm.trans htime, hstamp⟩ (ih hrest)

section Writing
variable (hd : d.SamePaths d')
  (hsame : ∀ p ∈ draft.shelf.files, d.look (lib.toDisk p) = d'.look (lib.toDisk p))
include hd hsame

theorem treeAt_of_same (way : PropertySyntax) :
    ∀ p ∈ draft.shelf.files, lib.treeAt way d p = lib.treeAt way d' p :=
  fun p hp => Library.treeAt_congr (hd.read_of_look (hsame p hp))

/-- The conversation so far would have been the same on the other disk. -/
theorem Asks.congr (h : Asks lib d order draft uri file) : Asks lib d' order draft uri file := by
  cases h with
  | first => exact .first
  | next begun asks =>
    have hagree := treeAt_of_same hd hsame order.compiler.propertySyntax
    -- the file itself is on the shelf from the beginning
    have hfirst := (Compiler.files_conversation begun.heard).subset List.mem_cons_self
    refine .next ⟨?_, ?_, Compiler.conversation_congr hd begun.heard hagree⟩ asks
    · exact (Library.resolve_eq hd ..).symm.trans begun.resolve
    · exact (hagree _ hfirst).symm.trans begun.tree

/-- Compiling anew on the other disk comes to the same. -/
theorem Ends.congr {css : Except Expand.Stop Text} (h : Ends lib d order draft css) :
    Ends lib d' order draft css := by
  refine (Compiler.compileAnew_congr hd ?_).trans h
  rw [h]
  exact treeAt_of_same hd hsame _

theorem Wants.congr (h : Wants lib d order draft p) : Wants lib d' order draft p := by
  obtain ⟨⟨uri, file, hasks, hresolve⟩, hnew⟩ := h
  exact ⟨⟨uri, file, hasks.congr hd hsame, (Library.resolve_eq hd ..).symm.trans hresolve⟩, hnew⟩

/-- **A compilation stays right when files are written that it has not loaded.** -/
theorem Doing.congr {phase : Phase} {seen' : List Disk} (hseen : seen ⊆ seen')
    (h : Doing lib seen d order draft phase) : Doing lib seen' d' order draft phase := by
  have hsaw : ∀ {p entry}, lib.Saw order.compiler.propertySyntax seen p entry →
      lib.Saw order.compiler.propertySyntax seen' p entry :=
    fun ⟨d₀, hd₀, h⟩ => ⟨d₀, hseen hd₀, h⟩
  have hright : draft.shelf.Right order.compiler.propertySyntax lib d →
      draft.shelf.Right order.compiler.propertySyntax lib d' :=
    fun h => Shelf.Right.congr h hd (treeAt_of_same hd hsame _)
  cases h with
  | resolve asks => exact .resolve (asks.congr hd hsame)
  | seek wants => exact .seek (wants.congr hd hsame)
  | date wants saw => exact .date (wants.congr hd hsame) (hsaw saw)
  | drop wants => exact .drop (wants.congr hd hsame)
  | read wants => exact .read (wants.congr hd hsame)
  | finish ends right => exact .finish (ends.congr hd hsame) (hright right)
  | commit ends right rest_subset =>
    exact .commit (ends.congr hd hsame) (hright right) rest_subset
  | store ends right rest_subset saw =>
    exact .store (ends.congr hd hsame) (hright right) rest_subset (hsaw saw)
  | stamp ends files stamped =>
    refine .stamp (ends.congr hd hsame) files (stamped.congr fun p hp => hsame p ?_)
    rw [files]
    exact List.mem_append_left _ hp
  | keep made files =>
    -- the times that were taken are those of the new disk, too
    have hends : Ends lib d order draft _ := made.compiled.trans (by rw [files])
    refine .keep ⟨(hends.congr hd hsame).trans (by rw [files]), ?_⟩ files
    exact made.stamped.congr (files ▸ hsame)
  | land ends result_eq => exact .land (ends.congr hd hsame) result_eq

end Writing

/-- The memory of an instance stays right when files are written and no path comes or goes. -/
theorem Sheets.Right.congr {o : SheetOptions} {m : Sheets} {seen' : List Disk}
    (h : m.Right o lib seen d) (hd : d.SamePaths d') (hseen : seen ⊆ seen') :
    m.Right o lib seen' d' where
  setup := h.setup
  memory :=
    { kin := h.memory.kin
      remembers := fun p entry hentry => by
        obtain ⟨d₀, hd₀, hsaw⟩ := h.memory.remembers p entry hentry
        exact ⟨d₀, hseen hd₀, hsaw⟩
      recalls := h.memory.recalls.of_samePaths hd }
  kept key entry hentry := by
    obtain ⟨order, horder, hkey, d₀, hd₀, hmade⟩ := h.kept key entry hentry
    exact ⟨order, horder, hkey, d₀, hseen hd₀, hmade⟩

end Drafts

end Service

end IndentedSass
