import IndentedSass.Proofs.Course
import Mathlib.Logic.Relation

/-!
# Expansions as conversations

An expansion asks its importer for one file after the other, and between two requests it looks at
nothing else. So it can be cut there: with the answers to its first requests alone it either ends or
shows its next request (`outlook`). A *conversation* goes on from there, request by request, and
between two requests anything may happen to the importer's state.

`source_converses` says that nothing is lost by the cut: running an expansion is having the
conversation to its end. Two facts are used with it. A conversation can be resumed with another
importer and comes to an end again (`exists_end`), and requests are made from files that the
importer has named itself (`outlook_asks_from`).
-/

namespace IndentedSass.Expand
open Relation (ReflTransGen)
variable {σ α β : Type}

/-! ## Cutting an expansion -/

/-- What an importer is asked: a target and the importing file. -/
abbrev Request := Text × Text

/-- What an importer answers: a tree and the path of its file. -/
abbrev Answer := Except Fault (Source × Text)

/-- The answers that are left, and the request for which there was none. -/
structure Transcript where
  answers : List Answer
  asked : Option Request

/-- The importer that reads its answers from a script. It fails when they are used up. -/
def scripted : Importer Transcript where
  load uri file s :=
    match s.asked, s.answers with
    | none, answer :: rest => (answer, ⟨rest, none⟩)
    | none, [] => (.error .notFound, ⟨[], some (uri, file)⟩)
    | some _, _ => (.error .notFound, s)

/-- The settings with a script in place of their importer. -/
def Settings.scripted (a : Settings σ) : Settings Transcript :=
  ⟨a.palette, a.vendors, some Expand.scripted⟩

/-- How far a computation gets with some answers. -/
inductive Outlook (α : Type) where
  | asks (request : Request)
  | ends (result : Except Stop α)

/-- How far a scripted computation gets with some answers. -/
def outlook (m : Run Transcript α) (answers : List Answer) : Outlook α :=
  match m.run ⟨answers, none⟩ with
  | (.error _, ⟨_, some request⟩) => .asks request
  | (result, _) => .ends result

variable {m : Run Transcript α} {answers : List Answer} {request : Request}

theorem outlook_eq_asks (h : outlook m answers = .asks request) :
    ∃ stop rest, m.run ⟨answers, none⟩ = (.error stop, ⟨rest, some request⟩) := by
  rw [outlook] at h
  rcases hrun : m.run ⟨answers, none⟩ with ⟨stop | a, rest, _ | asked⟩ <;> rw [hrun] at h
  · cases h
  · cases h
    exact ⟨stop, rest, rfl⟩
  · cases h
  · cases h

theorem outlook_of_run_error {stop : Stop} {rest : List Answer}
    (h : m.run ⟨answers, none⟩ = (.error stop, ⟨rest, some request⟩)) :
    outlook m answers = .asks request := by
  rw [outlook, h]

theorem outlook_of_run {result : Except Stop α} {rest : List Answer}
    (h : m.run ⟨answers, none⟩ = (result, ⟨rest, none⟩)) : outlook m answers = .ends result := by
  rw [outlook, h]
  cases result <;> rfl

/-! ## Conversations -/

section Conversations
variable {view : List Answer → Outlook α} {importer : Importer σ}

/-- One request and its answer. -/
inductive Exchange (view : List Answer → Outlook α) (importer : Importer σ) :
    List Answer × σ → List Answer × σ → Prop
  | mk {answers : List Answer} {uri file : Text} {s s' : σ} {answer : Answer}
    (asks : view answers = .asks (uri, file)) (load : importer.load uri file s = (answer, s')) :
    Exchange view importer (answers, s) (answers ++ [answer], s')

/-- Requests and their answers, one after the other. -/
abbrev Conversation (view : List Answer → Outlook α) (importer : Importer σ) :
    List Answer × σ → List Answer × σ → Prop :=
  ReflTransGen (Exchange view importer)

theorem exchange_rightUnique : Relator.RightUnique (Exchange view importer) := by
  rintro _ _ _ ⟨asks, load⟩ ⟨asks', load'⟩
  cases asks.symm.trans asks'
  cases load.symm.trans load'
  rfl

/-- When nothing is asked any more, a conversation is over. -/
theorem Conversation.eq_of_ends {x y : List Answer × σ} {result : Except Stop α}
    (hends : view x.1 = .ends result) (h : Conversation view importer x y) : y = x := by
  induction h with
  | refl => rfl
  | tail _ hlast ih =>
    subst ih
    obtain ⟨asks, -⟩ := hlast
    cases hends.symm.trans asks

/-- A conversation ends in one way only. -/
theorem Conversation.end_unique {x y z : List Answer × σ} {result result' : Except Stop α}
    (hy : Conversation view importer x y) (hends : view y.1 = .ends result)
    (hz : Conversation view importer x z) (hends' : view z.1 = .ends result') : y = z := by
  rcases ReflTransGen.total_of_right_unique exchange_rightUnique hy hz with h | h
  · exact (Conversation.eq_of_ends hends h).symm
  · exact Conversation.eq_of_ends hends' h

/-- Before each of these answers something was asked. -/
def Heard (view : List Answer → Outlook α) (answers : List Answer) : Prop :=
  ∀ before after, answers = before ++ after → after ≠ [] → ∃ request, view before = .asks request

theorem heard_nil : Heard view [] := by
  intro before after h hafter
  exact absurd (List.append_eq_nil_iff.mp h.symm).2 hafter

theorem Heard.append {answer : Answer} (h : Heard view answers)
    (hasks : view answers = .asks request) : Heard view (answers ++ [answer]) := by
  intro before after heq hafter
  rcases List.append_eq_append_iff.mp heq with ⟨more, rfl, hmore⟩ | ⟨more, rfl, hmore⟩
  · -- the last answer stands alone after `before`
    cases more with
    | nil =>
      rw [List.append_nil]
      exact ⟨request, hasks⟩
    | cons a more =>
      exact absurd (List.append_eq_nil_iff.mp (List.cons.inj hmore).2.symm).2 hafter
  · cases more with
    | nil =>
      rw [List.append_nil] at hasks
      exact ⟨request, hasks⟩
    | cons a more => exact h before (a :: more) rfl (List.cons_ne_nil _ _)

theorem Conversation.heard {x y : List Answer × σ} (h : Conversation view importer x y)
    (hx : Heard view x.1) : Heard view y.1 := by
  induction h with
  | refl => exact hx
  | tail _ hlast ih =>
    obtain ⟨asks, -⟩ := hlast
    exact ih.append asks

end Conversations

/-! ## Running is having the conversation -/

/-- A computation is the conversation of a scripted one with the importer: the answers that it gets
are enough for the script to come to the same result, and no more than it needs. -/
def Converses (importer : Importer σ) (m : Run σ α) (n : Run Transcript α) : Prop :=
  ∀ s, ∃ answers, Conversation (outlook n) importer ([], s) (answers, (m.run s).2) ∧
    ∀ more, n.run ⟨answers ++ more, none⟩ = ((m.run s).1, ⟨more, none⟩)

section Converses
variable {importer : Importer σ} {m : Run σ α} {n : Run Transcript α}

/-- What asks first asks also when something follows. -/
theorem outlook_bind_of_asks {g : α → Run Transcript β} (h : outlook n answers = .asks request) :
    outlook (n >>= g) answers = .asks request := by
  obtain ⟨stop, rest, hrun⟩ := outlook_eq_asks h
  have hbind := run_bind n g ⟨answers, none⟩
  rw [hrun] at hbind
  exact outlook_of_run_error hbind

theorem outlook_locating_of_asks {pos : Position} (h : outlook n answers = .asks request) :
    outlook (locating pos n) answers = .asks request := by
  obtain ⟨stop, rest, hrun⟩ := outlook_eq_asks h
  have hlocating := run_locating pos n ⟨answers, none⟩
  rw [hrun] at hlocating
  exact outlook_of_run_error hlocating

theorem Conversation.mono {view : List Answer → Outlook α} {view' : List Answer → Outlook β}
    {x y : List Answer × σ} (h : Conversation view importer x y)
    (hview : ∀ answers request, view answers = .asks request → view' answers = .asks request) :
    Conversation view' importer x y := by
  induction h with
  | refl => exact .refl
  | tail _ hlast ih =>
    obtain ⟨asks, load⟩ := hlast
    exact ih.tail (.mk (hview _ _ asks) load)

/-- What follows a computation that has used up its answers. -/
theorem Conversation.after {g : α → Run Transcript β} {a : α} {first : List Answer}
    (hfirst : ∀ more, n.run ⟨first ++ more, none⟩ = (.ok a, ⟨more, none⟩))
    {x y : List Answer × σ} (h : Conversation (outlook (g a)) importer x y) :
    Conversation (outlook (n >>= g)) importer (first ++ x.1, x.2) (first ++ y.1, y.2) := by
  induction h with
  | refl => exact .refl
  | tail _ hlast ih =>
    obtain @⟨answers, _, _, _, _, _, asks, load⟩ := hlast
    obtain ⟨stop, rest, hrun⟩ := outlook_eq_asks asks
    have hbind := run_bind n g ⟨first ++ answers, none⟩
    rw [hfirst] at hbind
    dsimp only at ih ⊢
    rw [← List.append_assoc]
    exact ih.tail (.mk (outlook_of_run_error (hbind.trans hrun)) load)

theorem Converses.bind {f : α → Run σ β} {g : α → Run Transcript β} (h : Converses importer m n)
    (hf : ∀ a, Converses importer (f a) (g a)) : Converses importer (m >>= f) (n >>= g) := by
  intro s
  obtain ⟨first, hfirst, hrun⟩ := h s
  rw [run_bind]
  rcases hm : m.run s with ⟨stop | a, s₁⟩ <;> rw [hm] at hfirst hrun
  · refine ⟨first, hfirst.mono fun _ _ => outlook_bind_of_asks, fun more => ?_⟩
    rw [run_bind, hrun]
  · obtain ⟨rest, hrest, hrun'⟩ := hf a s₁
    refine ⟨first ++ rest, (hfirst.mono fun _ _ => outlook_bind_of_asks).trans ?_, fun more => ?_⟩
    · have after := Conversation.after hrun hrest
      rwa [List.append_nil] at after
    · rw [run_bind, List.append_assoc, hrun]
      exact hrun' more

theorem compatible_converses (importer : Importer σ) :
    Compatible fun _ _ m n => Converses importer m n where
  pure _ := fun _ => ⟨[], .refl, fun _ => rfl⟩
  throw _ := fun _ => ⟨[], .refl, fun _ => rfl⟩
  bind := Converses.bind
  locating := by
    intro _ α m n pos h s
    obtain ⟨answers, hanswers, hrun⟩ := h s
    rw [run_locating]
    refine ⟨answers, hanswers.mono fun _ _ => outlook_locating_of_asks, fun more => ?_⟩
    rw [run_locating, hrun]

/-- Loading a file is one request. -/
theorem converses_loading (importer : Importer σ) (uri file : Text) :
    Converses importer (loading importer uri file) (loading scripted uri file) := by
  intro s
  rw [run_loading]
  refine ⟨[(importer.load uri file s).1], .single (.mk ?_ rfl), fun more => ?_⟩
  · rfl
  · rw [run_loading]
    rfl

/-- **An expansion is the conversation of its script with the importer.** -/
theorem source_converses {a : Settings σ} (h : a.importer = some importer) (fuel : Nat)
    (file : Text) (src : Source) :
    Converses importer (source a fuel file src) (source a.scripted fuel file src) := by
  refine source_related (compatible_converses importer) ⟨rfl, rfl, ?_⟩ fuel file src
  rw [h]
  exact .some ((compatible_converses importer).loadingRelated (converses_loading importer))

/-- A conversation that has come to its end tells what the computation does. -/
theorem Converses.run_eq (h : Converses importer m n) {s s' : σ} {result : Except Stop α}
    (hconversation : Conversation (outlook n) importer ([], s) (answers, s'))
    (hends : outlook n answers = .ends result) : m.run s = (result, s') := by
  obtain ⟨answers', hconversation', hrun⟩ := h s
  have hends' : outlook n answers' = .ends (m.run s).1 := by
    have hend := hrun []
    rw [List.append_nil] at hend
    exact outlook_of_run hend
  have hsame := hconversation.end_unique hends hconversation' hends'
  cases hsame
  cases hends.symm.trans hends'
  rfl

theorem Converses.exists_end (h : Converses importer m n) (s : σ) :
    ∃ answers s' result, Conversation (outlook n) importer ([], s) (answers, s') ∧
      outlook n answers = .ends result := by
  obtain ⟨answers, hconversation, hrun⟩ := h s
  have hend := hrun []
  rw [List.append_nil] at hend
  exact ⟨answers, _, _, hconversation, outlook_of_run hend⟩

end Converses

/-! ## Resuming -/

/-- The importer that repeats the given answers and goes on with another one after that. -/
def resuming (importer : Importer σ) : Importer (List Answer × σ) where
  load uri file x :=
    match x with
    | (answer :: rest, s) => (answer, (rest, s))
    | ([], s) => ((importer.load uri file s).1, ([], (importer.load uri file s).2))

/-- A conversation that repeats answers is still repeating them, or has gone on from there. -/
theorem Conversation.resumed {view : List Answer → Outlook α} {importer : Importer σ} {s : σ}
    {y : List Answer × List Answer × σ}
    (h : Conversation view (resuming importer) ([], answers, s) y) :
    (y.1 ++ y.2.1 = answers ∧ y.2.2 = s) ∨
      y.2.1 = [] ∧ Conversation view importer (answers, s) (y.1, y.2.2) := by
  induction h with
  | refl => exact .inl ⟨List.nil_append _, rfl⟩
  | tail _ hlast ih =>
    obtain @⟨heard, uri, file, ⟨left, t⟩, ⟨left', t'⟩, answer, asks, load⟩ := hlast
    cases left with
    | cons first rest =>
      cases load
      rcases ih with ⟨hanswers, hs⟩ | ⟨hnil, -⟩
      · exact .inl ⟨by rw [← hanswers, List.append_assoc]; rfl, hs⟩
      · cases hnil
    | nil =>
      cases load
      refine .inr ⟨rfl, ?_⟩
      rcases ih with ⟨hanswers, hs⟩ | ⟨-, hconversation⟩
      · dsimp only at hanswers hs asks ⊢
        rw [List.append_nil] at hanswers
        subst hanswers hs
        exact .single (.mk asks rfl)
      · exact hconversation.tail (.mk asks rfl)

/-- **A conversation can be resumed with any importer and comes to an end.** -/
theorem exists_end {τ : Type} (a : Settings τ) (fuel : Nat) (file : Text) (src : Source)
    (importer : Importer σ) (s : σ)
    (h : Heard (outlook (source a.scripted fuel file src)) answers) :
    ∃ answers' s' result, Conversation (outlook (source a.scripted fuel file src)) importer
        (answers, s) (answers', s') ∧
      outlook (source a.scripted fuel file src) answers' = .ends result := by
  let b : Settings (List Answer × σ) := ⟨a.palette, a.vendors, some (resuming importer)⟩
  have hb : Converses (resuming importer) (source b fuel file src)
      (source a.scripted fuel file src) := @source_converses _ _ b rfl fuel file src
  obtain ⟨answers', ⟨left, s'⟩, result, hconversation, hends⟩ := hb.exists_end (answers, s)
  rcases hconversation.resumed with ⟨hanswers, hs⟩ | ⟨-, hresumed⟩
  · cases left with
    | nil =>
      rw [List.append_nil] at hanswers
      subst hanswers
      exact ⟨answers', s, result, .refl, hends⟩
    | cons first rest =>
      obtain ⟨request, hasks⟩ := h answers' (first :: rest) hanswers.symm (List.cons_ne_nil _ _)
      cases hends.symm.trans hasks
  · exact ⟨answers', s', result, hresumed, hends⟩

/-! ## Where requests come from -/

/-- All paths that a script still has to name are near. -/
def Transcript.IsNear (Near : Text → Prop) (s : Transcript) : Prop :=
  ∀ source path, .ok (source, path) ∈ s.answers → Near path

/-- What a scripted computation asks from near files, it asks from a near file. -/
structure AsksNear (Near : Text → Prop) (m : Run Transcript α) (s : Transcript) : Prop where
  left : (m.run s).2.IsNear Near
  asked : ∀ request, (m.run s).2.asked = some request → Near request.2
  ready : ∀ a, (m.run s).1 = .ok a → (m.run s).2.asked = none

variable {Near : Text → Prop}

theorem AsksNear.of_run {m : Run Transcript α} {s s' : Transcript} {result : Except Stop α}
    (hrun : m.run s = (result, s')) (left : s'.IsNear Near)
    (asked : ∀ request, s'.asked = some request → Near request.2)
    (ready : ∀ a, result = .ok a → s'.asked = none) : AsksNear Near m s := by
  have hresult : (m.run s).1 = result := congrArg Prod.fst hrun
  have hstate : (m.run s).2 = s' := congrArg Prod.snd hrun
  subst hresult hstate
  exact ⟨left, asked, ready⟩

theorem AsksNear.bind {m : Run Transcript α} {f : α → Run Transcript β} {s : Transcript}
    (h : AsksNear Near m s)
    (hf : ∀ a s, s.asked = none → s.IsNear Near → AsksNear Near (f a) s) :
    AsksNear Near (m >>= f) s := by
  obtain ⟨left, asked, ready⟩ := h
  have hrun := run_bind m f s
  rcases hm : m.run s with ⟨stop | a, s₁⟩ <;> rw [hm] at left asked ready hrun
  · exact .of_run hrun left asked fun _ h => by cases h
  · have rest := hf a s₁ (ready a rfl) left
    exact .of_run hrun rest.left rest.asked rest.ready

theorem AsksNear.locating {m : Run Transcript α} {s : Transcript} (h : AsksNear Near m s)
    (pos : Position) : AsksNear Near (locating pos m) s := by
  refine .of_run (run_locating pos m s) h.left h.asked fun a ha => ?_
  rcases hm : (m.run s).1 with stop | b
  · rw [hm] at ha
    cases ha
  · exact h.ready b hm

theorem compatible_asksNear (Near : Text → Prop) :
    Compatible fun _ α (m : Run Transcript α) (_ : Run Transcript α) =>
      ∀ s, s.asked = none → s.IsNear Near → AsksNear Near m s where
  pure _ := fun s hasked hnear => .of_run (run_pure _ s) hnear
    (fun _ h => by rw [hasked] at h; cases h) fun _ _ => hasked
  throw _ := fun s hasked hnear => .of_run (run_throw _ s) hnear
    (fun _ h => by rw [hasked] at h; cases h) fun _ h => by cases h
  bind h hf := fun s hasked hnear => (h s hasked hnear).bind hf
  locating pos h := fun s hasked hnear => (h s hasked hnear).locating pos

theorem loadingRelated_asksNear (Near : Text → Prop) :
    LoadingRelated (fun file α (m : Run Transcript α) (_ : Run Transcript α) =>
      Near file → ∀ s, s.asked = none → s.IsNear Near → AsksNear Near m s) scripted scripted := by
  intro uri file α k _ hk hfile s hasked hnear
  obtain ⟨answers, asked⟩ := s
  cases hasked
  have hrun := run_bind (loading scripted uri file) k ⟨answers, none⟩
  rw [run_loading] at hrun
  cases answers with
  | nil =>
    refine .of_run hrun (fun _ _ h => by cases h) (fun request h => ?_) fun _ h => by cases h
    cases h
    exact hfile
  | cons first rest =>
    have hrest : Transcript.IsNear Near ⟨rest, none⟩ :=
      fun source path h => hnear source path (List.mem_cons_of_mem _ h)
    rcases first with f | ⟨source, path⟩
    · exact .of_run hrun hrest (fun _ h => by cases h) fun _ h => by cases h
    · have next := hk source path (hnear source path List.mem_cons_self) ⟨rest, none⟩ rfl hrest
      exact .of_run hrun next.left next.asked next.ready

/-- **Requests are made from the file itself or from files that were named in an answer.** -/
theorem outlook_asks_from {a : Settings σ} {fuel : Nat} {file uri file' : Text} {src : Source}
    (hfile : Near file) (hanswers : ∀ source path, .ok (source, path) ∈ answers → Near path)
    (h : outlook (source a.scripted fuel file src) answers = .asks (uri, file')) : Near file' := by
  have hsettings : SettingsRelated _ a.scripted a.scripted :=
    ⟨rfl, rfl, .some (loadingRelated_asksNear Near)⟩
  have hnear := source_related ((compatible_asksNear Near).within Near) hsettings fuel file src
    hfile ⟨answers, none⟩ rfl hanswers
  obtain ⟨stop, rest, hrun⟩ := outlook_eq_asks h
  refine hnear.asked (uri, file') ?_
  rw [hrun]

end IndentedSass.Expand
