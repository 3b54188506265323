import IndentedSass.Proofs.Histories
import IndentedSass.Service.Http
import IndentedSass.Service.Sheets

/-!
# Every fault of a compilation has its place

When a sheet cannot be compiled, the fault names a line that is not blank: of the text itself or of
a file that was loaded for it, and of the very place where things went wrong. That is the line at
which a text is refused, or the innermost statement that fails (`Compiler.Raised`).

Faults are raised without a position in many places and get one on their way out, the first one that
is offered. So this is a statement about the order of offers: statements are vouched for by the
documents they come from (`Compiler.standing`), and the innermost failing visit is the first that
has a position to offer.

A library may have been through anything before (`Library.Past`). It may remember where an import
leads, and that file may be gone by now, which is a fault at the import. Only where there is
something else by now that cannot be read, the fault has no place (`Compiler.Misread`).
-/

namespace IndentedSass

namespace Compiler
variable {seen : List Disk} {d : Disk} {own : Document} {files files' : List Text} {pos : Position}

/-! ## Where statements stand -/

/-- A line, not blank, of the document that is compiled or of a text that a listed file had under
the time that it shows. -/
def Stands (own : Document) (seen : List Disk) (d : Disk) (files : List Text) (pos : Position) :
    Prop :=
  ∃ doc, (doc = own ∨ ∃ p ∈ files, Disk.Held seen d p doc) ∧ doc.HasLine pos

theorem Stands.mono (h : Stands own seen d files pos) (hfiles : files <+: files') :
    Stands own seen d files' pos := by
  obtain ⟨doc, hdoc, hline⟩ := h
  refine ⟨doc, hdoc.imp_right ?_, hline⟩
  rintro ⟨p, hp, hdoc⟩
  exact ⟨p, hfiles.subset hp, hdoc⟩

/-- A position at which something stands is not missing. -/
theorem Stands.isNone (h : Stands own seen d files pos) (hfirst : 0 ≤ own.first) :
    pos.isNone = false := by
  obtain ⟨doc, hdoc, hline⟩ := h
  refine hline.isNone ?_
  rcases hdoc with rfl | ⟨p, -, hheld⟩
  · exact hfirst
  · exact hheld.first_nonneg

end Compiler

namespace Statement

theorem nodes_choice (depth : Nat) (head : Branch Statement) (more : List (Branch Statement)) :
    (choice head more).nodes depth = branchesNodes depth (head :: more) := by
  rw [nodes, branchesNodes]

/-- The nodes of a nested statement are among those of the statement around it. -/
theorem nodes_subset_of_mem_nested {t u : Statement} (hu : u ∈ t.nested) (depth : Nat) :
    u.nodes (depth + 1) ⊆ t.nodes depth := by
  cases t with
  | rule | property | mixin | forLoop | whileLoop | directive =>
    rw [nodes]
    exact List.subset_cons_of_subset _ (nodes_subset_nodesOf hu _)
  | choice head more =>
    obtain ⟨b, hb, hu⟩ := List.mem_flatMap.mp hu
    rw [nodes_choice]
    refine List.Subset.trans ?_ (branchNodes_subset_branchesNodes hb depth)
    rw [branchNodes]
    exact List.subset_cons_of_subset _ (nodes_subset_nodesOf hu _)
  | assign | call | imports | comment => cases hu

/-- Every branch of a choice is a node of it. -/
theorem branch_mem_nodes {head b : Branch Statement} {more : List (Branch Statement)}
    (hb : b ∈ head :: more) (depth : Nat) :
    ⟨depth, b.pos, .plain⟩ ∈ (choice head more).nodes depth := by
  rw [nodes_choice]
  refine branchNodes_subset_branchesNodes hb depth ?_
  rw [branchNodes]
  exact List.mem_cons_self

end Statement

namespace Compiler
variable {c : Compiler} {seen : List Disk} {d : Disk} {own : Document} {l : Loader}
  {files : List Text}

/-- All of a statement stands somewhere. -/
def AllStand (own : Document) (seen : List Disk) (d : Disk) (files : List Text) (t : Statement) :
    Prop :=
  ∃ depth, ∀ n ∈ t.nodes depth, Stands own seen d files n.pos

theorem AllStand.pos {t : Statement} (h : AllStand own seen d files t) :
    Stands own seen d files t.pos := by
  obtain ⟨depth, h⟩ := h
  obtain ⟨kind, hnode⟩ := t.exists_mem_nodes depth
  exact h _ hnode

theorem AllStand.branch {t : Statement} (h : AllStand own seen d files t)
    {head b : Branch Statement} {more : List (Branch Statement)} (ht : t = .choice head more)
    (hb : b ∈ head :: more) : Stands own seen d files b.pos := by
  subst ht
  obtain ⟨depth, h⟩ := h
  exact h _ (Statement.branch_mem_nodes hb depth)

/-- The statements of a document all stand somewhere. -/
theorem allStand_of_tree {doc : Document} {src : Source} {way : PropertySyntax}
    (hdoc : doc = own ∨ ∃ p ∈ files, Disk.Held seen d p doc) (h : doc.tree way = .ok src) :
    ∀ t ∈ src.body, AllStand own seen d files t :=
  fun _ ht => ⟨0, fun n hn => ⟨doc, hdoc,
    Document.hasLine_of_parse h n (Statement.nodes_subset_nodesOf ht 0 hn)⟩⟩

/-- The promise of a compilation: each statement stands in the document that is compiled or in a
file that has been loaded. -/
def standing (c : Compiler) (seen : List Disk) (d : Disk) (hd : d ∈ seen) (own : Document) :
    Expand.Promise c.settings where
  Sound := Faithful c.propertySyntax seen d
  Later l l' := l.files <+: l'.files
  Vouched l t := AllStand own seen d l.files t
  refl _ := List.prefix_refl _
  trans h h' := h.trans h'
  mono := by
    rintro a b t hfiles ⟨depth, h⟩
    exact ⟨depth, fun n hn => (h n hn).mono hfiles⟩
  nested := by
    rintro a t ⟨depth, h⟩ u hu
    exact ⟨depth + 1, fun n hn => h n (Statement.nodes_subset_of_mem_nested hu depth hn)⟩
  load := by
    intro importer a himporter hsound uri file
    cases himporter
    obtain ⟨hfaithful, hgrows, hfetches⟩ := hsound.loadImport hd uri file
    refine ⟨hfaithful, hgrows, fun src path hok => ?_⟩
    obtain ⟨hlisted, doc, hheld, htree⟩ := hfetches.exists_of_ok hok
    exact allStand_of_tree (.inr ⟨path, hlisted, hheld⟩) htree

/-! ## Where faults are raised -/

open Expand in
/-- Expanding the tree of a document comes to visit `w`, at any depth: in the document itself, in a
mixin, or in an imported file. -/
def Reaches (c : Compiler) (own : Document) (l : Loader) (w : Visit Loader) : Prop :=
  ∃ src v, own.tree c.propertySyntax = .ok src ∧
    (Job.body src.body).Visits c.settings c.fuel ⟨[], [], own.file⟩ .empty (outset own.file l) v ∧
    Relation.ReflTransGen (Visit.Opens c.settings) v w

/-- Where in the course of compiling a document a fault is raised. -/
inductive Raised (c : Compiler) (seen : List Disk) (d : Disk) (own : Document) (l : Loader) :
    Position → Prop
  /-- A line of the document is refused. -/
  | refused {pos} (h : own.RefusedAt c.propertySyntax pos) : Raised c seen d own l pos
  /-- A statement fails, and nothing within it does. -/
  | statement {w f pos} (hreach : c.Reaches own l w) (hraises : w.Raises c.settings (.fault f))
    (hblames : w.Blames c.settings f pos) : Raised c seen d own l pos
  /-- A line of an imported file is refused. -/
  | imported {w f at_ uri p doc pos} (hreach : c.Reaches own l w)
    (hraises : w.Raises c.settings (.fault f)) (hs : w.statement = .imports at_ uri)
    (hheld : Disk.Held seen d p doc)
    (hload : (c.loadImport uri w.place.file w.state.importer).1 =
      (doc.tree c.propertySyntax).map fun src => (src, p))
    (hrefused : doc.RefusedAt c.propertySyntax pos) : Raised c seen d own l pos

/-- The fault has a position: that of a line, not blank, of the document or of a listed file, at
which the fault was raised. -/
def Located (c : Compiler) (seen : List Disk) (d : Disk) (own : Document) (l : Loader)
    (files : List Text) (f : Fault) : Prop :=
  ∃ pos, f.pos? = some pos ∧ pos.isNone = false ∧ Stands own seen d files pos ∧
    c.Raised seen d own l pos

/-- The fault is that of an import of a file which was there on an earlier disk. By now there is
something else at its path, on a disk in memory a directory, and that cannot be read. -/
def Misread (c : Compiler) (seen : List Disk) (d : Disk) (own : Document) (l : Loader)
    (files : List Text) (f : Fault) : Prop :=
  ∃ w at_ uri p message, c.Reaches own l w ∧ w.Raises c.settings (.fault f) ∧
    w.statement = .imports at_ uri ∧ p ∈ files ∧ (∃ d₀ ∈ seen, d₀.isFile p = true) ∧
    d.read p = .error (.other message) ∧ (d.isNative = false → d.look p = .dir) ∧
    f = .tagged ("read " ++ p) (.plain message)

theorem located_refused {f : Fault} (hfirst : 0 ≤ own.first)
    (h : own.tree c.propertySyntax = .error f) : c.Located seen d own l files f := by
  obtain ⟨pos, hpos, hline, hrefused⟩ := Document.refusedAt_of_parse hfirst h
  exact ⟨pos, hpos, hline.isNone hfirst, ⟨own, .inl rfl, hline⟩, .refused hrefused⟩

/-- An innermost visit that fails, with what it raises and the fault that becomes of it on its way
out. -/
structure Failing (c : Compiler) (seen : List Disk) (d : Disk) (own : Document) (l : Loader)
    (w : Expand.Visit Loader) (raised f : Fault) : Prop where
  reaches : c.Reaches own l w
  raises : w.Raises c.settings (.fault raised)
  faithful : Faithful c.propertySyntax seen d w.state.importer
  stands : AllStand own seen d w.state.importer.files w.statement
  grows : w.state.importer.files <+: (w.outcome c.settings).2.importer.files
  outward : (Expand.Stop.fault (raised.locate w.statement.pos)).Outward (.fault f)

namespace Failing
variable {w : Expand.Visit Loader} {raised f : Fault} {pos : Position}

/-- A position at which something stands is the one that the fault ends up with. -/
theorem located (h : c.Failing seen d own l w raised f) (hfirst : 0 ≤ own.first)
    (hpos : (raised.locate w.statement.pos).pos? = some pos)
    (hplace : Stands own seen d (w.outcome c.settings).2.importer.files pos)
    (hraised : c.Raised seen d own l pos) :
    c.Located seen d own l (w.outcome c.settings).2.importer.files f :=
  ⟨pos, h.outward.pos? hpos (hplace.isNone hfirst), hplace.isNone hfirst, hplace, hraised⟩

/-- A statement is blamed where it stands, or where one of its branches does. -/
theorem located_of_blames (h : c.Failing seen d own l w raised f) (hfirst : 0 ≤ own.first)
    (hblames : w.Blames c.settings raised pos)
    (hpos : (raised.locate w.statement.pos).pos? = some pos) :
    c.Located seen d own l (w.outcome c.settings).2.importer.files f := by
  refine h.located hfirst hpos (Stands.mono ?_ h.grows) (.statement h.reaches h.raises hblames)
  cases hblames with
  | own _ => exact h.stands.pos
  | branch hs hb _ =>
    obtain ⟨before, after, hsplit, -⟩ := hb.split
    exact h.stands.branch hs (hsplit ▸ List.mem_append_right _ List.mem_cons_self)

theorem located_of_isBare (h : c.Failing seen d own l w raised f) (hfirst : 0 ≤ own.first)
    (hbare : raised.IsBare) :
    c.Located seen d own l (w.outcome c.settings).2.importer.files f :=
  h.located_of_blames hfirst (.own hbare) (hbare.pos?_locate _)

/-- An import whose file is not found, or gone, is blamed itself. Where the text of the file is
refused, a line of that is. What is left is something that cannot be read. -/
theorem located_or_misread (h : c.Failing seen d own l w raised f) (hd : d ∈ seen)
    (hfirst : 0 ≤ own.first) {at_ : Position} {uri : Text} (hs : w.statement = .imports at_ uri)
    (hload : c.loadImport uri w.place.file w.state.importer =
      (.error raised, (w.outcome c.settings).2.importer)) :
    c.Located seen d own l (w.outcome c.settings).2.importer.files f ∨
      c.Misread seen d own l (w.outcome c.settings).2.importer.files f := by
  obtain ⟨-, -, hfetches⟩ := h.faithful.loadImport hd uri w.place.file
  rw [hload] at hfetches
  rcases hfetches.of_error rfl with hunresolved | ⟨p, hwas, hlisted, hunread | hrefused⟩
  · exact .inl (h.located_of_isBare hfirst hunresolved)
  · cases hunread with
    | missing _ => exact .inl (h.located_of_isBare hfirst rfl)
    | other hread =>
      obtain rfl := Expand.Stop.fault.inj (h.outward.eq_of_unmoved fun _ => rfl)
      exact .inr ⟨w, at_, uri, p, _, h.reaches, h.raises, hs, hlisted, hwas, hread,
        fun hmemory => Disk.look_of_read_other hmemory hread, rfl⟩
  · obtain ⟨doc, hheld, hparse⟩ := hrefused
    obtain ⟨pos, hpos, hline, hrefused⟩ := Document.refusedAt_of_parse hheld.first_nonneg hparse
    have hkept := Fault.pos?_locate_of_placed hpos (hline.isNone hheld.first_nonneg)
    refine .inl (h.located hfirst (hkept _) ⟨doc, .inr ⟨p, hlisted, hheld⟩, hline⟩
      (.imported h.reaches h.raises hs hheld ?_ hrefused))
    rw [hload, hparse]
    rfl

end Failing

/-- An expansion that ends with a fault has an innermost visit that fails. It is in a state in which
its statement stands somewhere. -/
theorem exists_failing {src : Source} {f : Fault} {l' : Loader} (hd : d ∈ seen)
    (htree : own.tree c.propertySyntax = .ok src) (hl : Faithful c.propertySyntax seen d l)
    (h : (Expand.source c.settings c.fuel own.file src).run l = (.error (.fault f), l')) :
    ∃ w raised, c.Failing seen d own l w raised f ∧ (w.outcome c.settings).2.importer = l' := by
  obtain ⟨v, w, stop, hv, hreach, hraises, hend, hout⟩ :=
    Expand.exists_raises_of_source h (fun hdry => by cases hdry)
  have htop : ∀ t ∈ src.body, (c.standing seen d hd own).Vouched l t :=
    allStand_of_tree (.inl rfl) htree
  obtain ⟨hvholds, hvstands⟩ := Expand.Promise.visit_holds hv ⟨hl, Scope.eachMixin_empty⟩ htop
  obtain ⟨hwholds, hwstands⟩ := Expand.Promise.reach_holds hreach hvholds hvstands
  obtain ⟨raised, rfl⟩ : ∃ raised, stop = .fault raised := by
    obtain ⟨g, hg, -⟩ := hout.of_fault
    cases stop with
    | fault raised => exact ⟨raised, rfl⟩
    | overflow | outOfFuel => cases hg
  exact ⟨w, raised,
    { reaches := ⟨src, v, htree, hv, hreach⟩
      raises := hraises
      faithful := hwholds.sound
      stands := hwstands
      grows := ((c.standing seen d hd own).steady_visit w hwholds.sound).2
      outward := hout }, hend⟩

/-- **A fault of an expansion has its place**, unless a file could not be read. The innermost visit
that fails is the first that has a position to offer. -/
theorem located_source {src : Source} {f : Fault} {l' : Loader} (hd : d ∈ seen)
    (hfirst : 0 ≤ own.first) (htree : own.tree c.propertySyntax = .ok src)
    (hl : Faithful c.propertySyntax seen d l)
    (h : (Expand.source c.settings c.fuel own.file src).run l = (.error (.fault f), l')) :
    c.Located seen d own l l'.files f ∨ c.Misread seen d own l l'.files f := by
  obtain ⟨w, raised, hfailing, rfl⟩ := exists_failing hd htree hl h
  have hbranch : ∀ head more, w.statement = .choice head more →
      ∀ b ∈ head :: more, b.pos.isNone = false :=
    fun _ _ hs b hb => (hfailing.stands.branch hs hb).isNone hfirst
  rcases hfailing.raises.blames hbranch with
    ⟨pos, hblames, hpos⟩ | ⟨at_, uri, importer, hs, himporter, hload⟩
  · exact .inl (hfailing.located_of_blames hfirst hblames hpos)
  · cases himporter
    exact hfailing.located_or_misread hd hfirst hs hload

/-! ## Compiling -/

/-- Parses a text and expands its tree. -/
def expandText (c : Compiler) (text : Text) : Expand.Run Loader (List Css) := do
  let src ← Expand.lift ((c.parse text).mapError .fault)
  Expand.source c.settings c.fuel [] src

/-- Compiling a text is expanding it, but for the style and for what is handed to the library. -/
theorem compile_eq (text : Text) (w : World) :
    (c.compile text w).1 = ((c.expandText text).run (.start w)).1.map c.style.render := by
  rw [compile, expandText, Expand.run_bind, Expand.run_lift]
  cases c.parse text with
  | error f => rfl
  | ok src =>
    dsimp only [Except.mapError]
    rw [render]
    rcases (Expand.source c.settings c.fuel [] src).run (.start w) with ⟨css, l'⟩
    cases css <;> rfl

/-- A result is a fault if it was one before the style was applied. -/
theorem error_of_map_render {css : Except Expand.Stop (List Css)} {stop : Expand.Stop}
    (h : css.map c.style.render = .error stop) : css = .error stop := by
  cases css with
  | ok _ => cases h
  | error _ =>
    cases h
    rfl

theorem located_compile {lib : Library} {reads : List Text} {text : Text} {f : Fault}
    (hlib : lib.StemsFrom c.propertySyntax seen) (hd : d ∈ seen) (hline : 0 ≤ c.options.line)
    (h : (c.compile text ⟨d, lib, reads⟩).1 = .error (.fault f)) :
    c.Located seen d ⟨[], text, c.options.line⟩ (.start ⟨d, lib, reads⟩)
        ((c.expandText text).run (.start ⟨d, lib, reads⟩)).2.files f ∨
      c.Misread seen d ⟨[], text, c.options.line⟩ (.start ⟨d, lib, reads⟩)
        ((c.expandText text).run (.start ⟨d, lib, reads⟩)).2.files f := by
  rw [compile_eq] at h
  have hexpand := error_of_map_render h
  rcases hrun : (c.expandText text).run (.start ⟨d, lib, reads⟩) with ⟨result, l'⟩
  rw [hrun] at hexpand
  obtain rfl : result = .error (.fault f) := hexpand
  rw [expandText] at hrun
  rcases Expand.of_run_bind_error hrun with hparse | ⟨src, _, hlift, hsource⟩
  · obtain ⟨halt, herror, hstop⟩ := Expand.of_run_lift_error hparse
    cases htree : c.parse text with
    | ok src =>
      rw [htree] at herror
      cases herror
    | error g =>
      rw [htree] at herror
      cases herror
      cases hstop
      exact .inl (located_refused hline htree)
  · obtain ⟨hparse, rfl⟩ := Expand.of_run_lift_ok hlift
    exact located_source hd hline (Outcome.mapError_eq_ok_iff.mp hparse) (faithful_start rfl hlib)
      hsource

/-- A fault of a file whose target was resolved: the file itself cannot be read, or else the fault
has its place or comes from an import that cannot be read. -/
theorem located_compileFile {lib : Library} {reads : List Text} {path p : Text} {w : World}
    {f : Fault} (hlib : lib.StemsFrom c.propertySyntax seen) (hd : d ∈ seen)
    (hresolve : World.resolve ⟨d, lib, reads⟩ path [] = (.ok p, w))
    (h : (c.compileFile path ⟨d, lib, reads⟩).1.css = .error (.fault f)) :
    Disk.Unread d p f ∨ ∃ doc, Disk.Held seen d p doc ∧
      (c.Located seen d doc (c.load p (.start w)).2 (c.compileFile path ⟨d, lib, reads⟩).1.files f ∨
        c.Misread seen d doc (c.load p (.start w)).2
          (c.compileFile path ⟨d, lib, reads⟩).1.files f) := by
  have hstart : Faithful c.propertySyntax seen d (.start ⟨d, lib, reads⟩) := faithful_start rfl hlib
  obtain ⟨hfaithful, hfile, -⟩ := hstart.resolve hd hresolve
  have hworld : Faithful c.propertySyntax seen d (.start w) := hfaithful
  obtain ⟨hloaded, -, -, hloads⟩ := hworld.load hd (hfile p rfl)
  rw [compileFile_of_resolve hresolve] at h ⊢
  have hexpand := error_of_map_render h
  rcases hrun : (c.expandFile p).run (.start w) with ⟨result, l'⟩
  rw [hrun] at hexpand
  obtain rfl : result = .error (.fault f) := hexpand
  have hload : (c.loadingFile p).run (.start w) =
      ((c.load p (.start w)).1.mapError .fault, (c.load p (.start w)).2) := rfl
  rw [expandFile, Expand.run_bind, hload] at hrun
  generalize (c.load p (.start w)).1 = tree at hrun hloads
  cases hloads with
  | unread hunread =>
    cases hrun
    exact .inl hunread
  | @document doc held =>
    refine .inr ⟨doc, held, ?_⟩
    cases hparse : doc.tree c.propertySyntax with
    | error g =>
      rw [hparse] at hrun
      cases hrun
      exact .inl (located_refused held.first_nonneg hparse)
    | ok src =>
      rw [hparse] at hrun
      obtain rfl := held.file_eq
      exact located_source hd held.first_nonneg hparse hloaded hrun

/-! ## Listed files -/

/-- All files that are listed have been loaded. -/
def Loader.Complete (l : Loader) : Prop := ∀ p ∈ l.files, ∃ src, (p, src) ∈ l.pending

/-- If this succeeds, all listed files have been loaded. -/
def Completes {α : Type} (m : Expand.Run Loader α) : Prop :=
  ∀ l a l', l.Complete → m.run l = (.ok a, l') → l'.Complete

theorem compatible_completes :
    Expand.Compatible fun _ α (m : Expand.Run Loader α) (_ : Expand.Run Loader α) =>
      Completes m where
  pure _ l a l' hl h := by
    cases h
    exact hl
  throw _ _ _ _ _ h := by cases h
  bind := by
    intro _ α β m _ f _ hm hf l b l' hl h
    obtain ⟨a, l₁, hfirst, hrest⟩ := Expand.of_run_bind_ok h
    exact hf a l₁ b l' (hm l a l₁ hl hfirst) hrest
  locating := by
    intro _ α m _ pos hm l a l' hl h
    exact hm l a l' hl (Expand.of_run_locating_ok h)

theorem complete_load {p : Text} {src : Source} {l' : Loader} (hl : l.Complete)
    (h : c.load p l = (.ok src, l')) : l'.Complete := by
  cases hpending : l.pending.lookup p with
  | some tree =>
    rw [load, hpending] at h
    cases h
    exact hl
  | none =>
    obtain ⟨w, tree, hnote⟩ : ∃ w tree, c.load p l = l.note p w tree := by
      rcases hcached : c.cachedTree l.world p with ⟨_ | tree, w⟩
      · exact ⟨_, _, load_of_none hpending hcached⟩
      · exact ⟨_, _, load_of_some hpending hcached⟩
    rw [hnote] at h
    cases tree with
    | error f => cases h
    | ok tree =>
      cases h
      intro q hq
      rcases List.mem_append.mp hq with hq | hq
      · obtain ⟨src', hmem⟩ := hl q hq
        exact ⟨src', List.mem_append_left _ hmem⟩
      · obtain rfl := List.mem_singleton.mp hq
        exact ⟨src, List.mem_append_right _ List.mem_cons_self⟩

theorem complete_loadImport {uri file : Text} {r : Source × Text} {l' : Loader} (hl : l.Complete)
    (h : c.loadImport uri file l = (.ok r, l')) : l'.Complete := by
  rcases hresolve : l.world.resolve uri file with ⟨fault | p, w⟩
  · rw [loadImport, hresolve] at h
    cases h
  · rw [loadImport_of_ok hresolve] at h
    rcases hload : c.load p { l with world := w } with ⟨fault | src, l₁⟩ <;> rw [hload] at h <;>
      cases h
    exact complete_load (l := { l with world := w }) hl hload

/-- An expansion that succeeds has loaded all files that it lists: a load that fails ends it. -/
theorem completes_source (c : Compiler) (file : Text) (src : Source) :
    Completes (Expand.source c.settings c.fuel file src) := by
  refine Expand.source_related compatible_completes ⟨rfl, rfl, .some ?_⟩ c.fuel file src
  refine compatible_completes.loadingRelated fun uri file l r l' hl h => ?_
  rw [Expand.run_loading] at h
  have himporter : c.importer.load uri file l = c.loadImport uri file l := rfl
  rw [himporter] at h
  rcases hload : c.loadImport uri file l with ⟨fault | r', l₁⟩ <;> rw [hload] at h <;> cases h
  exact complete_loadImport hl hload

/-- A file that compiles: the loader at the end, whose trees are handed on. -/
theorem compileFile_eq_ok {lib : Library} {reads : List Text} {path css : Text}
    (hlib : lib.StemsFrom c.propertySyntax seen) (hd : d ∈ seen)
    (h : (c.compileFile path ⟨d, lib, reads⟩).1.css = .ok css) :
    ∃ l, Faithful c.propertySyntax seen d l ∧ l.Complete ∧
      (c.compileFile path ⟨d, lib, reads⟩).1.files = l.files := by
  have hstart : Faithful c.propertySyntax seen d (.start ⟨d, lib, reads⟩) := faithful_start rfl hlib
  rcases hresolve : World.resolve ⟨d, lib, reads⟩ path [] with ⟨target, w⟩
  obtain ⟨hfaithful, hfile, -⟩ := hstart.resolve hd hresolve
  have hworld : Faithful c.propertySyntax seen d (.start w) := hfaithful
  rw [compileFile, hresolve] at h ⊢
  cases target with
  | error f => cases h
  | ok p =>
    have hloaded := (hworld.load hd (hfile p rfl)).1
    dsimp only at h ⊢
    rcases hload : c.load p (.start w) with ⟨fault | src, l₁⟩
    · rw [hload] at h
      cases h
    · have hcomplete : l₁.Complete := complete_load (l := .start w) (List.forall_mem_nil _) hload
      rw [hload] at h hloaded
      dsimp only at h ⊢
      rw [render] at h ⊢
      have hend := ((c.faithful seen d hd).steady_source c.fuel p src l₁ hloaded).1
      rcases hrun : (Expand.source c.settings c.fuel p src).run l₁ with ⟨stop | sheet, l₂⟩
      · rw [hrun] at h
        cases h
      · rw [hrun] at hend
        exact ⟨l₂, hend, completes_source c p src l₁ sheet l₂ hcomplete hrun, rfl⟩

end Compiler

/-! ## Answers of the service -/

namespace Service

theorem Http.code_ofFault {f : Fault} {pos : Position} (h : f.pos? = some pos)
    (hpos : pos.isNone = false) : (Http.ofFault f).code = 422 := by
  rw [Http.ofFault, h, Option.map_some, hpos]
  rfl

theorem Http.code_of_located {c : Compiler} {seen : List Disk} {d : Disk} {own : Document}
    {l : Compiler.Loader} {files : List Text} {f : Fault} (h : c.Located seen d own l files f) :
    (Http.ofFault f).code = 422 := by
  obtain ⟨pos, hpos, hplaced, -⟩ := h
  exact Http.code_ofFault hpos hplaced

/-- A fault that is no answer to a file that is missing. -/
structure Http.IsAside (f : Fault) : Prop where
  code : (Http.ofFault f).code ≠ 404
  kind : f.is .importNotFound = false

theorem Http.isAside_of_misread {c : Compiler} {seen : List Disk} {d : Disk} {own : Document}
    {l : Compiler.Loader} {files : List Text} {f : Fault} (h : c.Misread seen d own l files f) :
    Http.IsAside f := by
  obtain ⟨_, _, _, p, message, -, -, -, -, -, -, -, rfl⟩ := h
  exact ⟨nofun, rfl⟩

namespace Sheets
variable {m : Sheets} {seen : List Disk} {around : Surroundings} {name style : Text} {c : Compiler}
  {f : Fault}

theorem mapM_eq_ok {α β : Type} {f : α → Except Fault β} {xs : List α}
    (h : ∀ x ∈ xs, ∃ y, f x = .ok y) : ∃ ys, xs.mapM f = .ok ys := by
  induction xs with
  | nil => exact ⟨[], rfl⟩
  | cons x xs ih =>
    obtain ⟨y, hy⟩ := h x List.mem_cons_self
    obtain ⟨ys, hys⟩ := ih fun z hz => h z (List.mem_cons_of_mem _ hz)
    refine ⟨y :: ys, ?_⟩
    rw [List.mapM_cons, hy]
    show (xs.mapM f >>= fun ys => pure (y :: ys)) = _
    rw [hys]
    rfl

/-- The times of files that have been loaded can be told. -/
theorem timesOf_eq_ok {d : Disk} {files : List Text} (hlib : m.library.InMemory)
    (h : ∀ p ∈ files, ∃ doc, Disk.Held seen d p doc) : ∃ times, m.timesOf d files = .ok times := by
  refine mapM_eq_ok fun p hp => ?_
  obtain ⟨doc, d₀, -, f, hlook, htime, -⟩ := h p hp
  have hmod : m.library.modTime d p = .ok f.mtime := by
    rw [Library.modTime_eq_ok, hlib.toDisk_of_isFile (Disk.isFile_of_look hlook), htime]
  exact ⟨nanoseconds f.mtime, by rw [hmod]⟩

/-- The compilers of the service read properties as its options say. -/
theorem propertySyntax_compilerFor {o : Options} {style : Style}
    (h : compilerFor o style = .ok c) : c.propertySyntax = .ofText o.propertySyntax := by
  rw [compilerFor, Compiler.new] at h
  obtain ⟨_, -, h⟩ := Outcome.of_bind_eq_ok h
  obtain ⟨style', -, h⟩ := Outcome.of_bind_eq_ok h
  cases h
  rfl

/-- Options that are no good are rejected. -/
theorem compilerFor_eq_error {o : Options} {style : Style} (h : compilerFor o style = .error f) :
    ∃ message, f = .invalid message := by
  have parse {s : Text} {f : Fault} (h : Options.parseStyle s = .error f) :
      ∃ message, f = .invalid message := by
    rw [Options.parseStyle] at h
    split at h
    · cases h
    · cases h
      exact ⟨_, rfl⟩
  rw [compilerFor, Compiler.new] at h
  rcases Outcome.of_bind_eq_error h with h | ⟨_, -, h⟩
  · rw [Options.validate] at h
    rcases Outcome.of_bind_eq_error h with h | ⟨_, -, h⟩
    · exact parse h
    · split at h
      · cases h
      · cases h
        exact ⟨_, rfl⟩
  · rcases Outcome.of_bind_eq_error h with h | ⟨_, -, h⟩
    · exact parse h
    · cases h

/-- The file of a sheet cannot be resolved or read. -/
def Unavailable (m : Sheets) (d : Disk) (name : Text) : Prop :=
  ∀ p, (m.library.resolveCached d (fileOf m.setup.options.templateLocation name) []).1 = .ok p →
    ∀ text, d.read p ≠ .ok text

theorem unread_ne_ok {d : Disk} {p text : Text} (h : Disk.Unread d p f) : d.read p ≠ .ok text := by
  intro hread
  cases h with
  | missing h | other h => cases h.symm.trans hread

/-- How compiling the file of a sheet can fail: the file is not available, the fault has its place,
or it is about something else. -/
theorem compileFile_eq_fault {d : Disk} (hlib : m.library.StemsFrom c.propertySyntax seen)
    (hd : d ∈ seen)
    (h : (c.compileFile (fileOf m.setup.options.templateLocation name) ⟨d, m.library, []⟩).1.css =
      .error (.fault f)) :
    m.Unavailable d name ∨ (Http.ofFault f).code = 422 ∨ Http.IsAside f := by
  rw [Unavailable]
  generalize fileOf m.setup.options.templateLocation name = path at h ⊢
  rcases hresolve : World.resolve ⟨d, m.library, []⟩ path [] with ⟨e | p, w⟩
  · have hnone : (m.library.resolveCached d path []).1 = .error e := congrArg Prod.fst hresolve
    exact .inl fun p hp => by cases hnone.symm.trans hp
  · have hsome : (m.library.resolveCached d path []).1 = .ok p := congrArg Prod.fst hresolve
    rcases Compiler.located_compileFile hlib hd hresolve h with
      hunread | ⟨doc, -, hlocated | hmisread⟩
    · refine .inl fun p' hp' text => ?_
      cases hsome.symm.trans hp'
      exact unread_ne_ok hunread
    · exact .inr (.inl (Http.code_of_located hlocated))
    · exact .inr (.inr (Http.isAside_of_misread hmisread))

/-- After a compilation that succeeds, the times of all files that it lists can be told. -/
theorem exists_timesOf_compileFile {d : Disk} {path css : Text}
    (hlib : m.library.StemsFrom c.propertySyntax seen) (hd : d ∈ seen)
    (h : (c.compileFile path ⟨d, m.library, []⟩).1.css = .ok css) :
    ∃ times, timesOf { m with library := (c.compileFile path ⟨d, m.library, []⟩).2.library } d
      (c.compileFile path ⟨d, m.library, []⟩).1.files = .ok times := by
  obtain ⟨l, hl, hcomplete, hfiles⟩ := Compiler.compileFile_eq_ok hlib hd h
  have hheld : ∀ p ∈ (c.compileFile path ⟨d, m.library, []⟩).1.files,
      ∃ doc, Disk.Held seen d p doc := by
    rw [hfiles]
    intro p hp
    obtain ⟨src, hmem⟩ := hcomplete p hp
    obtain ⟨-, doc, hheld, -⟩ := hl.pending p src hmem
    exact ⟨doc, hheld⟩
  exact timesOf_eq_ok (Compiler.stemsFrom_compileFile hlib hd path []).inMemory hheld

/-- How compiling a sheet can fail: its file is not available, the fault has its place, or it is
about something else. -/
theorem compile_eq_error (hlib : m.library.StemsFrom c.propertySyntax seen)
    (hd : around.disk ∈ seen) (h : (m.compile c name around).1 = .error f) :
    m.Unavailable around.disk name ∨ (Http.ofFault f).code = 422 ∨ Http.IsAside f := by
  rw [compile] at h
  dsimp only at h
  cases hcss : (c.compileFile (fileOf m.setup.options.templateLocation name)
      ⟨around.disk, m.library, []⟩).1.css with
  | error stop =>
    rw [hcss] at h
    cases h
    cases stop with
    | outOfFuel | overflow length => exact .inr (.inr ⟨nofun, rfl⟩)
    | fault g => exact compileFile_eq_fault hlib hd hcss
  | ok css =>
    -- only telling the times could still fail
    obtain ⟨times, htimes⟩ := exists_timesOf_compileFile hlib hd hcss
    rw [hcss] at h
    dsimp only at h
    rw [htimes] at h
    cases h

/-- How a request can fail: the file of the sheet is not available, the fault has its place, or it
is about something else, such as the request itself. -/
theorem get_eq_error
    (hlib : m.library.StemsFrom (.ofText m.setup.options.propertySyntax) seen)
    (hd : around.disk ∈ seen) (h : (m.get name style around).1 = .error f) :
    m.Unavailable around.disk name ∨ (Http.ofFault f).code = 422 ∨ Http.IsAside f := by
  rw [get] at h
  dsimp only at h
  generalize (if style.isEmpty then m.setup.options.style else style) = style at h
  cases hstyle : (Style.ofName? style).map (compilerFor m.setup.options) with
  | none =>
    rw [hstyle] at h
    cases h
    exact .inr (.inr ⟨nofun, rfl⟩)
  | some compiler =>
    obtain ⟨style', -, rfl⟩ := Option.map_eq_some_iff.mp hstyle
    rw [hstyle] at h
    cases hcompiler : compilerFor m.setup.options style' with
    | error g =>
      rw [hcompiler] at h
      cases h
      obtain ⟨message, rfl⟩ := compilerFor_eq_error hcompiler
      exact .inr (.inr ⟨nofun, rfl⟩)
    | ok c =>
      rw [hcompiler] at h
      dsimp only at h
      split at h
      · cases h
      split at h
      · cases h
      rw [← propertySyntax_compilerFor hcompiler] at hlib
      generalize hkept : m.kept.get? (keyOf name style) = kept at h
      rcases hcompile : compile { m with kept := kept.2 } c name around with ⟨result, m'⟩
      have hsame : ({ m with kept := kept.2 } : Sheets).library.StemsFrom c.propertySyntax seen :=
        hlib
      rw [hcompile] at h
      cases result with
      | ok s => cases h
      | error g =>
        cases h
        have hfails := compile_eq_error hsame hd (congrArg Prod.fst hcompile)
        exact hfails

end Sheets

end Service

open Service in
/-- **Every fault of a compilation has its place**, but for one kind. Take a library after whatever
it has been through. A fault of a text, or of a file that was found and read, has a position that is
not missing: that of a line, not blank, of the text or the file itself or of a file that was loaded
on the way, and the fault was raised at that line. That is a line of the text that the file has, if
no file shows an old time with another text. The exception is an import of a path that was a file on
an earlier disk, and at which there is something else by now that cannot be read.

So the service answers that a sheet is not found only if its own file cannot be resolved or read; if
an import is missing at any depth, the answer is that the sheet cannot be compiled. -/
theorem faults_located (c : Compiler) (d : Disk) (before : List Disk) (lib : Library)
    (reads : List Text) (hlib : lib.Past c.propertySyntax d before) :
    (0 ≤ c.options.line → ∀ text f, (c.compile text ⟨d, lib, reads⟩).1 = .error (.fault f) →
      c.Located (d :: before) d ⟨[], text, c.options.line⟩ (.start ⟨d, lib, reads⟩)
          ((c.expandText text).run (.start ⟨d, lib, reads⟩)).2.files f ∨
        c.Misread (d :: before) d ⟨[], text, c.options.line⟩ (.start ⟨d, lib, reads⟩)
          ((c.expandText text).run (.start ⟨d, lib, reads⟩)).2.files f) ∧
    (∀ path p w f, World.resolve ⟨d, lib, reads⟩ path [] = (.ok p, w) →
      (c.compileFile path ⟨d, lib, reads⟩).1.css = .error (.fault f) →
      Disk.Unread d p f ∨ ∃ doc, Disk.Held (d :: before) d p doc ∧
        (c.Located (d :: before) d doc (c.load p (.start w)).2
            (c.compileFile path ⟨d, lib, reads⟩).1.files f ∨
          c.Misread (d :: before) d doc (c.load p (.start w)).2
            (c.compileFile path ⟨d, lib, reads⟩).1.files f)) ∧
    ((∀ d₀ ∈ before, d₀.Keeps d) →
      ∀ p doc, Disk.Held (d :: before) d p doc → d.read p = .ok doc.text) ∧
    ∀ (m : Sheets) (store : Option Store) (now name style : Text) (f : Fault), m.library = lib →
      c.propertySyntax = .ofText m.setup.options.propertySyntax →
      (m.get name style ⟨d, store, now⟩).1 = .error f →
      ((Http.ofFault f).code = 404 → m.Unavailable d name) ∧
        (f.is .importNotFound = true → ¬ m.Unavailable d name → (Http.ofFault f).code = 422) := by
  have hstems := hlib.stemsFrom
  have hd : d ∈ d :: before := List.mem_cons_self
  refine ⟨fun hline text f h => Compiler.located_compile hstems hd hline h,
    fun path p w f hresolve h => Compiler.located_compileFile hstems hd hresolve h,
    fun hkeeps p doc hheld => hheld.read_eq (List.forall_mem_cons.mpr ⟨d.keeps_refl, hkeeps⟩), ?_⟩
  rintro m store now name style f rfl hway h
  rw [hway] at hstems
  rcases Sheets.get_eq_error hstems hd h with hroot | hcode | haside
  · exact ⟨fun _ => hroot, fun _ hfound => absurd hroot hfound⟩
  · refine ⟨fun hmissing => ?_, fun _ _ => hcode⟩
    rw [hcode] at hmissing
    cases hmissing
  · refine ⟨fun hmissing => absurd hmissing haside.code, fun himport => ?_⟩
    rw [haside.kind] at himport
    cases himport

/-- The import is in the body of a mixin of an imported file, and the mixin is called from a rule of
the file that is compiled. The first time all is well; then the file is removed, and the target that
is remembered for it cannot be read any more. -/
theorem faults_located_in_mixin :
    let d : Disk := ⟨[("a.sass", ⟨"@import b\np\n  +m\n", 1⟩),
      ("b.sass", ⟨"=m\n\n  @import c\n", 1⟩), ("c.sass", ⟨"q\n  r: s\n", 1⟩)], [], false⟩
    let w := (Act.run plainCompiler ⟨d, .inMemory plainLibrary, []⟩ (.compileFile "a.sass")).2
    let w' := (Act.run plainCompiler ⟨w.disk, w.library, []⟩ (.remove "c.sass")).2
    w'.library.Past plainCompiler.propertySyntax w'.disk [w.disk, d] ∧
    ∃ f w'', World.resolve ⟨w'.disk, w'.library, []⟩ "a.sass" [] = (.ok "a.sass", w'') ∧
      (plainCompiler.compileFile "a.sass" ⟨w'.disk, w'.library, []⟩).1.css = .error (.fault f) ∧
      f.pos? = some ⟨"b.sass", 3, 1⟩ ∧
      ∃ doc, Disk.Held [w'.disk, w.disk, d] w'.disk "a.sass" doc ∧
        plainCompiler.Located [w'.disk, w.disk, d] w'.disk doc
          (plainCompiler.load "a.sass" (.start w'')).2
          (plainCompiler.compileFile "a.sass" ⟨w'.disk, w'.library, []⟩).1.files f := by
  intro d w w'
  have hnew := Library.past_new plainCompiler.propertySyntax plainLibrary d
  have hpast : w'.library.Past plainCompiler.propertySyntax w'.disk [w.disk, d] :=
    (hnew.act plainCompiler rfl [] (.compileFile "a.sass")).act plainCompiler rfl []
      (.remove "c.sass")
  have hroot : (World.resolve ⟨w'.disk, w'.library, []⟩ "a.sass" []).1.toOption =
      some ("a.sass" : Text) := by
    decide +kernel
  have hpos : (tryCatch ((plainCompiler.compileFile "a.sass" ⟨w'.disk, w'.library, []⟩).1.css.map
      fun _ => (none : Option Position)) fun stop => .ok stop.toFault.pos?).toOption =
      some (some ⟨"b.sass", 3, 1⟩) := by decide +kernel
  obtain ⟨w'', hresolve⟩ : ∃ w'', World.resolve ⟨w'.disk, w'.library, []⟩ "a.sass" [] =
      (.ok "a.sass", w'') := by
    rcases hresult : World.resolve ⟨w'.disk, w'.library, []⟩ "a.sass" [] with ⟨_ | p, w''⟩ <;>
      rw [hresult] at hroot <;> cases hroot
    exact ⟨w'', rfl⟩
  rcases hcss : (plainCompiler.compileFile "a.sass" ⟨w'.disk, w'.library, []⟩).1.css with
    (f | length | _) | css <;> rw [hcss] at hpos
  · have hposf : f.pos? = some ⟨"b.sass", 3, 1⟩ := Option.some.inj hpos
    rcases (faults_located plainCompiler w'.disk [w.disk, d] w'.library [] hpast).2.1 _ _ w'' f
      hresolve hcss with hunread | ⟨doc, hheld, hlocated | hmisread⟩
    · cases hunread <;> cases hposf
    · exact ⟨hpast, f, w'', hresolve, rfl, hposf, doc, hheld, hlocated⟩
    · obtain ⟨_, _, _, _, _, -, -, -, -, -, -, -, rfl⟩ := hmisread
      cases hposf
  · cases hpos
  · cases hpos
  · cases hpos

open Service in
/-- A directory has taken the place of an imported file. The remembered target of the import cannot
be read, and the fault of that has no position: the service answers with a fault of its own. -/
theorem directory_unlocated :
    let d : Disk := ⟨[("a.sass", ⟨"@import b\n", 1⟩), ("b.sass", ⟨"x\n  y: z\n", 1⟩)], [], false⟩
    let w₁ := (Act.run plainCompiler ⟨d, .inMemory plainLibrary, []⟩ (.compileFile "a.sass")).2
    let w₂ := (Act.run plainCompiler ⟨w₁.disk, w₁.library, []⟩ (.remove "b.sass")).2
    let w₃ := (Act.run plainCompiler ⟨w₂.disk, w₂.library, []⟩
      (.write "b.sass/c.sass" ⟨"d\n  e: f\n", 1⟩)).2
    w₃.library.Past plainCompiler.propertySyntax w₃.disk [w₂.disk, w₁.disk, d] ∧
      (w₃.disk.read "a.sass").toOption = some ("@import b\n" : Text) ∧
      ∃ stop, (plainCompiler.compileFile "a.sass" ⟨w₃.disk, w₃.library, []⟩).1.css = .error stop ∧
        stop.toFault.text = "read b.sass: read b.sass: invalid argument" ∧
        stop.toFault.pos? = none ∧ (Http.ofFault stop.toFault).code = 500 := by
  intro d w₁ w₂ w₃
  have hnew := Library.past_new plainCompiler.propertySyntax plainLibrary d
  have hpast : w₃.library.Past plainCompiler.propertySyntax w₃.disk [w₂.disk, w₁.disk, d] :=
    ((hnew.act plainCompiler rfl [] (.compileFile "a.sass")).act plainCompiler rfl []
      (.remove "b.sass")).act plainCompiler rfl []
      (.write "b.sass/c.sass" ⟨"d\n  e: f\n", 1⟩)
  have hfault : (tryCatch ((plainCompiler.compileFile "a.sass" ⟨w₃.disk, w₃.library, []⟩).1.css.map
      fun _ => (none : Option (Text × Option Position × Nat))) fun stop => .ok (some
        (stop.toFault.text, stop.toFault.pos?, (Http.ofFault stop.toFault).code))).toOption =
      some (some (("read b.sass: read b.sass: invalid argument" : Text), none, 500)) := by
    decide +kernel
  refine ⟨hpast, by decide +kernel, ?_⟩
  rcases hcss : (plainCompiler.compileFile "a.sass" ⟨w₃.disk, w₃.library, []⟩).1.css with stop | css
  · rw [hcss] at hfault
    obtain ⟨htext, hrest⟩ := Prod.mk.inj (Option.some.inj (Option.some.inj hfault))
    obtain ⟨hpos, hcode⟩ := Prod.mk.inj hrest
    exact ⟨stop, rfl, htext, hpos, hcode⟩
  · rw [hcss] at hfault
    cases hfault

end IndentedSass
