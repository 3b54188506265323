import IndentedSass.Expand
import IndentedSass.Proofs.WellFormedTrees

/-!
# Arguments of mixins

A call binds the parameters of a mixin from left to right in a new frame. `Expand.Passes` says what
values they get: an argument is evaluated where the call stands, whatever the parameters are called,
and a default where the parameters before it, and no others, hide names of the caller. Where the
expressions in question have values, the parameters get these (`Expand.bindParams_of_passes`), and
the body is expanded in a scope made of nothing but them and the scope of the caller.

A call is refused only for the number of its arguments. Since parameters without a default come
first in every definition that can be read, one that misses an argument is refused before any
default is looked at.
-/

namespace IndentedSass

/-! ## Bindings of distinct names -/

namespace Bindings
variable {α : Type} {b : Bindings α} {name : Text}

theorem set_of_not_mem (h : name ∉ b.map Prod.fst) (v : α) : b.set name v = b ++ [(name, v)] := by
  induction b with
  | nil => rfl
  | cons entry rest ih =>
    rw [List.map_cons, List.mem_cons, not_or] at h
    rw [set, if_neg (Ne.symm h.1), ih h.2]
    rfl

end Bindings

/-! ## Lists that grow at the end -/

theorem getElem?_middle {α : Type} (done : List α) (a : α) (rest : List α) :
    (done ++ a :: rest)[done.length]? = some a := by
  rw [List.getElem?_append_right (Nat.le_refl _), Nat.sub_self]
  rfl

/-- An element of a list with a new end is an old one, or it is the new one. -/
theorem getElem?_concat_cases {α : Type} {l : List α} {a b : α} {i : Nat}
    (h : (l ++ [a])[i]? = some b) : l[i]? = some b ∧ i < l.length ∨ i = l.length ∧ a = b := by
  by_cases hi : i < l.length
  · rw [List.getElem?_append_left hi] at h
    exact .inl ⟨h, hi⟩
  · obtain ⟨hlt, -⟩ := List.getElem?_eq_some_iff.mp h
    rw [List.length_append, List.length_singleton] at hlt
    obtain rfl : i = l.length := by omega
    rw [List.getElem?_concat_length] at h
    exact .inr ⟨rfl, Option.some.inj h⟩

/-! ## Required parameters -/

namespace Source

/-- How many parameters have no default. -/
def required (ps : List Param) : Nat := ps.countP fun p => p.fallback.isNone

/-- The parameters without a default are the first ones. -/
theorem fallback_eq_none_iff {ps : List Param} (h : RequiredFirst ps) {i : Nat} {p : Param}
    (hp : ps[i]? = some p) : p.fallback = none ↔ i < required ps := by
  induction ps generalizing i with
  | nil => cases hp
  | cons first ps ih =>
    obtain ⟨hfirst, hrest⟩ := List.pairwise_cons.mp h
    by_cases hnone : first.fallback = none
    · have hcount : required (first :: ps) = required ps + 1 := by simp [required, hnone]
      rw [hcount]
      cases i with
      | zero =>
        cases hp
        exact ⟨fun _ => Nat.succ_pos _, fun _ => hnone⟩
      | succ i => rw [ih hrest hp, Nat.succ_lt_succ_iff]
    · -- behind an optional parameter there are only optional ones
      have hall : ∀ q ∈ first :: ps, q.fallback ≠ none :=
        List.forall_mem_cons.mpr ⟨hnone, fun q hq hq' => hnone (hfirst q hq hq')⟩
      have hcount : required (first :: ps) = 0 := by
        rw [required, List.countP_eq_zero]
        exact fun q hq => by simpa [Option.isNone_iff_eq_none] using hall q hq
      rw [hcount]
      exact ⟨fun hp' => absurd hp' (hall p (List.mem_of_getElem? hp)), fun hi => by cases hi⟩

theorem required_le_length (ps : List Param) : required ps ≤ ps.length := List.countP_le_length

/-- A definition that can be read has its required parameters first. -/
theorem requiredFirst_of_parse {way : PropertySyntax} {text file : Text} {first : Int}
    {src : Source} (h : parse way text file first = .ok src) {pos : Position} {name : Text}
    {ps : List Param} {body : List Statement} (hs : src.Has (.mixin pos name ps body)) :
    RequiredFirst ps := by
  rw [parse] at h
  obtain ⟨lines, -, h⟩ := Outcome.of_bind_eq_ok h
  exact every_of_ofLines (fun _ => Reading.own_formed) h hs

end Source

namespace Expand
variable {palette : Script.Palette} {m : Mixin} {caller : Scope} {name : Text}
  {params done rest : List Param} {args : List Text} {values later : List Script.Value}

/-! ## The values of parameters -/

/-- The names of a caller, some of them hidden. -/
def shadowed (palette : Script.Palette) (caller : Scope) (bound : Bindings Script.Value) :
    Script.Context :=
  ⟨fun name => (bound.get? name).or (caller.get? name), palette⟩

/-- The values that a call passes to parameters. -/
structure Passes (palette : Script.Palette) (caller : Scope) (params : List Param)
    (args : List Text) (values : List Script.Value) : Prop where
  length : values.length = params.length
  /-- An argument is evaluated by the caller. -/
  argument {i : Nat} {arg : Text} {v : Script.Value} (harg : args[i]? = some arg)
    (hv : values[i]? = some v) : Script.evaluate (caller.context palette) arg = .ok v
  /-- A default is evaluated where exactly the parameters before it hide names of the caller. -/
  fallback {i : Nat} {p : Param} {v : Script.Value} (hi : args.length ≤ i)
    (hp : params[i]? = some p) (hv : values[i]? = some v) :
    ∃ expr, p.fallback = some expr ∧ Script.evaluate
      (shadowed palette caller (((params.map Param.name).zip values).take i)) expr = .ok v

/-- The scope for the body of a mixin: parameters with their values over the scope of the caller. -/
def opened (caller : Scope) (params : List Param) (values : List Script.Value) : Scope :=
  ⟨⟨(params.map Param.name).zip values, []⟩, caller.frames⟩

theorem context_opened (palette : Script.Palette) (caller : Scope) (params : List Param)
    (values : List Script.Value) : (opened caller params values).context palette =
      shadowed palette caller ((params.map Param.name).zip values) := by
  have hget (name : Text) : (opened caller params values).get? name =
      (Bindings.get? ((params.map Param.name).zip values) name).or (caller.get? name) := by
    rw [Scope.get?, opened, Scope.frames, List.findSome?_cons]
    cases Bindings.get? ((params.map Param.name).zip values) name <;> rfl
  exact congrArg (Script.Context.mk · palette) (funext hget)

/-- A further parameter is bound last. -/
theorem opened_set (hlength : values.length = done.length) {p : Param}
    (hnew : p.name ∉ done.map Param.name) (v : Script.Value) :
    (opened caller done values).set p.name v = opened caller (done ++ [p]) (values ++ [v]) := by
  have hkeys : ((done.map Param.name).zip values).map Prod.fst = done.map Param.name :=
    List.map_fst_zip (by rw [List.length_map, hlength])
  have hset : Bindings.set ((done.map Param.name).zip values) p.name v =
      (done.map Param.name).zip values ++ [(p.name, v)] :=
    Bindings.set_of_not_mem (hkeys.symm ▸ hnew) v
  have hzip : ((done ++ [p]).map Param.name).zip (values ++ [v]) =
      (done.map Param.name).zip values ++ [(p.name, v)] := by
    rw [List.map_append, List.zip_append (by rw [List.length_map, hlength])]
    rfl
  rw [opened, opened, hzip, ← hset]
  rfl

/-- **Parameters get the values that are passed.** The induction is on the parameters still to be
bound; those that are bound make up the innermost frame. -/
theorem bindParams_of_passes (hdistinct : ((done ++ rest).map Param.name).Nodup)
    (hlength : values.length = done.length)
    (h : Passes palette caller (done ++ rest) args (values ++ later)) :
    bindParams palette m caller (opened caller done values) rest (args.drop done.length) =
      .ok (opened caller (done ++ rest) (values ++ later)) := by
  induction rest generalizing done values later with
  | nil =>
    have hlater : later = [] := by
      have := h.length
      rw [List.append_nil, List.length_append] at this
      exact List.length_eq_zero_iff.mp (by omega)
    rw [hlater, List.append_nil, List.append_nil, bindParams]
  | cons p rest ih =>
    obtain ⟨v, later, rfl⟩ : ∃ v tail, later = v :: tail := by
      cases later with
      | nil =>
        have := h.length
        rw [List.append_nil, List.length_append, List.length_cons] at this
        omega
      | cons v tail => exact ⟨v, tail, rfl⟩
    have hv : (values ++ v :: later)[done.length]? = some v :=
      hlength ▸ getElem?_middle values v later
    have hp := getElem?_middle done p rest
    have hnew : p.name ∉ done.map Param.name := by
      rw [List.map_append, List.map_cons] at hdistinct
      intro hmem
      exact (List.nodup_append.mp hdistinct).2.2 _ hmem _ List.mem_cons_self rfl
    have hset : (opened caller done values).set p.name v =
        opened caller (done ++ [p]) (values ++ [v]) := opened_set hlength hnew v
    rw [List.append_cons] at hdistinct h ⊢
    rw [List.append_cons values] at h ⊢
    have hnext := ih hdistinct (by simp [hlength]) h
    rw [List.length_append, List.length_singleton] at hnext
    cases hargs : args.drop done.length with
    | cons arg tail =>
      have harg : args[done.length]? = some arg := by
        rw [← List.head?_drop, hargs]
        rfl
      have htail : args.drop (done.length + 1) = tail := by
        rw [← List.tail_drop, hargs]
        rfl
      rw [bindParams, h.argument harg (by rwa [← List.append_cons])]
      dsimp only
      rw [hset, ← htail]
      exact hnext
    | nil =>
      have hlen : args.length ≤ done.length := List.drop_eq_nil_iff.mp hargs
      obtain ⟨expr, hexpr, heval⟩ := h.fallback hlen (by rwa [← List.append_cons])
        (by rwa [← List.append_cons])
      have hbound : (((done ++ [p] ++ rest).map Param.name).zip (values ++ [v] ++ later)).take
          done.length = (done.map Param.name).zip values := by
        rw [List.append_assoc, List.append_assoc, List.map_append,
          List.zip_append (by rw [List.length_map, hlength])]
        refine List.take_left' ?_
        rw [List.length_zip, List.length_map, hlength, Nat.min_self]
      have htail : args.drop (done.length + 1) = [] := List.drop_eq_nil_iff.mpr (by omega)
      rw [hbound, ← context_opened] at heval
      rw [bindParams, hexpr]
      dsimp only
      rw [heval]
      dsimp only
      rw [hset, ← htail]
      exact hnext

/-! ## Whether there are values -/

/-- The arguments of a call have values. -/
def ArgumentsEvaluate (palette : Script.Palette) (caller : Scope) (args : List Text) : Prop :=
  ∀ arg ∈ args, ∃ v, Script.evaluate (caller.context palette) arg = .ok v

/-- The defaults that a call uses have values, once the parameters before them have theirs. -/
def DefaultsEvaluate (palette : Script.Palette) (caller : Scope) (params : List Param)
    (args : List Text) : Prop :=
  ∀ done p rest expr values, params = done ++ p :: rest → args.length ≤ done.length →
    p.fallback = some expr → Passes palette caller done args values →
    ∃ v, Script.evaluate (shadowed palette caller ((done.map Param.name).zip values)) expr = .ok v

theorem passes_nil (palette : Script.Palette) (caller : Scope) (args : List Text) :
    Passes palette caller [] args [] where
  length := rfl
  argument _ hv := by cases hv
  fallback _ _ hv := by cases hv

/-- One more parameter gets its value, from an argument or from its default. -/
theorem Passes.snoc (h : Passes palette caller done args values) {p : Param} {v : Script.Value}
    (hargument : ∀ arg, args[done.length]? = some arg →
      Script.evaluate (caller.context palette) arg = .ok v)
    (hfallback : args.length ≤ done.length → ∃ expr, p.fallback = some expr ∧
      Script.evaluate (shadowed palette caller ((done.map Param.name).zip values)) expr = .ok v) :
    Passes palette caller (done ++ [p]) args (values ++ [v]) := by
  have hzip : ((done ++ [p]).map Param.name).zip (values ++ [v]) =
      (done.map Param.name).zip values ++ [(p.name, v)] := by
    rw [List.map_append, List.zip_append (by rw [List.length_map, h.length])]
    rfl
  have hlength : ((done.map Param.name).zip values).length = done.length := by
    rw [List.length_zip, List.length_map, h.length, Nat.min_self]
  refine ⟨by simp [h.length], fun {i arg w} harg hw => ?_, fun {i q w} hi hq hw => ?_⟩
  · rcases getElem?_concat_cases hw with ⟨hw, -⟩ | ⟨rfl, rfl⟩
    · exact h.argument harg hw
    · rw [h.length] at harg
      exact hargument arg harg
  · rw [hzip]
    rcases getElem?_concat_cases hq with ⟨hq, hlt⟩ | ⟨rfl, rfl⟩
    · rw [List.getElem?_append_left (h.length ▸ hlt)] at hw
      rw [List.take_append_of_le_length (by omega)]
      exact h.fallback hi hq hw
    · rw [← h.length, List.getElem?_concat_length] at hw
      rw [← hlength, List.take_left, ← Option.some.inj hw]
      exact hfallback hi

/-- **If all expressions in question have values, so have the parameters.** The induction is on the
parameters that are left. -/
theorem exists_passes (hargs : ArgumentsEvaluate palette caller args)
    (hdefaults : DefaultsEvaluate palette caller (done ++ rest) args)
    (hoptional : ∀ i p, args.length ≤ i → (done ++ rest)[i]? = some p → p.fallback ≠ none)
    (h : Passes palette caller done args values) :
    ∃ later, Passes palette caller (done ++ rest) args (values ++ later) := by
  induction rest generalizing done values with
  | nil => exact ⟨[], by rwa [List.append_nil, List.append_nil]⟩
  | cons p rest ih =>
    have hp := getElem?_middle done p rest
    have hvalue : ∃ v, Passes palette caller (done ++ [p]) args (values ++ [v]) := by
      by_cases hlt : done.length < args.length
      · obtain ⟨v, hv⟩ := hargs _ (List.getElem_mem hlt)
        refine ⟨v, h.snoc (fun arg harg => ?_) fun hle => absurd hlt (Nat.not_lt.mpr hle)⟩
        rw [List.getElem?_eq_getElem hlt] at harg
        rwa [← Option.some.inj harg]
      · have hle := Nat.le_of_not_lt hlt
        obtain ⟨expr, hexpr⟩ := Option.ne_none_iff_exists'.mp (hoptional _ p hle hp)
        obtain ⟨v, hv⟩ := hdefaults done p rest expr values rfl hle hexpr h
        refine ⟨v, h.snoc (fun arg harg => ?_) fun _ => ⟨expr, hexpr, hv⟩⟩
        rw [List.getElem?_eq_none hle] at harg
        cases harg
    obtain ⟨v, hv⟩ := hvalue
    rw [List.append_cons] at hdefaults hoptional ⊢
    obtain ⟨later, hlater⟩ := ih hdefaults hoptional hv
    exact ⟨v :: later, by rwa [List.append_cons values]⟩

/-! ## Calls -/

/-- A call ends with a fault of some kind before it comes to the body of the mixin. -/
def Refused (palette : Script.Palette) (scope : Scope) (name : Text) (args : List Text)
    (kind : Kind) : Prop :=
  ∃ message, enterMixin palette scope name args = .error (.of kind message)

theorem Refused.kind_eq {scope : Scope} {kind kind' : Kind}
    (h : Refused palette scope name args kind) (h' : Refused palette scope name args kind') :
    kind = kind' := by
  obtain ⟨message, h⟩ := h
  obtain ⟨message', h'⟩ := h'
  cases h.symm.trans h'
  rfl

theorem not_refused_of_ok {scope : Scope} {entered : Mixin × Scope}
    (h : enterMixin palette scope name args = .ok entered) (kind : Kind) :
    ¬Refused palette scope name args kind := by
  rintro ⟨message, hrefused⟩
  cases h.symm.trans hrefused

/-- A required parameter without an argument ends the binding, whatever comes after it. -/
theorem bindParams_missing (hargs : ArgumentsEvaluate palette caller args)
    (hlength : done.length = args.length) {p : Param} (hp : p.fallback = none) (scope : Scope) :
    ∃ message, bindParams palette m caller scope (done ++ p :: rest) args =
      .error (.of .missingArgument message) := by
  induction done generalizing args scope with
  | nil =>
    obtain rfl : args = [] := List.length_eq_zero_iff.mp hlength.symm
    rw [List.nil_append, bindParams, hp]
    exact ⟨_, rfl⟩
  | cons first done ih =>
    cases args with
    | nil => cases hlength
    | cons arg args =>
      obtain ⟨⟨v, hv⟩, hrest⟩ := List.forall_mem_cons.mp hargs
      rw [List.cons_append, bindParams, hv]
      exact ih hrest (Nat.succ.inj hlength) _

section Call
variable {scope : Scope} (hm : scope.mixin? name = some m)
include hm

theorem refused_of_many (h : m.params.length < args.length) :
    Refused palette scope name args .arityMismatch := by
  rw [Refused, enterMixin, hm]
  exact ⟨_, if_pos h⟩

theorem refused_of_few (hargs : ArgumentsEvaluate palette scope args)
    (hfirst : Source.RequiredFirst m.params) (h : args.length < Source.required m.params) :
    Refused palette scope name args .missingArgument := by
  have hlt : args.length < m.params.length := h.trans_le (Source.required_le_length _)
  have hsplit := List.take_append_drop args.length m.params
  rw [List.drop_eq_getElem_cons hlt] at hsplit
  obtain ⟨done, p, rest, hparams, hlength⟩ : ∃ done p rest,
      m.params = done ++ p :: rest ∧ done.length = args.length :=
    ⟨_, _, _, hsplit.symm, List.length_take_of_le hlt.le⟩
  have hp : m.params[args.length]? = some p := by
    rw [hparams, ← hlength]
    exact getElem?_middle done p rest
  have hnone := (Source.fallback_eq_none_iff hfirst hp).mpr h
  obtain ⟨message, hbind⟩ := bindParams_missing hargs hlength hnone scope.push
  refine ⟨message, ?_⟩
  rw [enterMixin, hm]
  dsimp only
  rw [if_neg (Nat.not_lt.mpr hlt.le), hparams, hbind]
  rfl

theorem enterMixin_of_enough (hle : args.length ≤ m.params.length)
    (hdistinct : (m.params.map Param.name).Nodup)
    (hpasses : Passes palette scope m.params args values) :
    enterMixin palette scope name args = .ok (m, opened scope m.params values) := by
  have hbind : bindParams palette m scope (opened scope [] []) m.params args =
      .ok (opened scope m.params values) := bindParams_of_passes hdistinct rfl hpasses
  rw [enterMixin, hm]
  dsimp only
  rw [if_neg (Nat.not_lt.mpr hle), show scope.push = opened scope [] [] from rfl, hbind]
  rfl

end Call

/-- **Arguments are bound by position, and nothing is captured.** A call of a mixin that can be read
is refused exactly for too many or too few arguments; in the latter case nothing is asked of its
defaults. All other calls expand the body at the place of the call, in a scope that has the
parameters with the values passed to them over the scope of the caller. -/
theorem call_binds_positionally {σ : Type} {settings : Settings σ} {scope : Scope} {m : Mixin}
    {name : Text} {args : List Text} (hm : scope.mixin? name = some m) {way : PropertySyntax}
    {text file : Text} {first : Int} {src : Source}
    (hparse : Source.parse way text file first = .ok src)
    (hdefined : src.Has (.mixin m.pos m.name m.params m.body))
    (hdistinct : (m.params.map Param.name).Nodup)
    (hargs : ArgumentsEvaluate settings.palette scope args)
    (hdefaults : Source.required m.params ≤ args.length →
      DefaultsEvaluate settings.palette scope m.params args)
    (fuel : Nat) (place : Place) (pos : Position) :
    (Refused settings.palette scope name args .arityMismatch ↔ m.params.length < args.length) ∧
    (Refused settings.palette scope name args .missingArgument ↔
      args.length < Source.required m.params) ∧
    (∀ halt, enterMixin settings.palette scope name args = .error halt →
      statement settings (fuel + 1) place scope (.call pos name args) = throw (.ofHalt halt)) ∧
    (Source.required m.params ≤ args.length → args.length ≤ m.params.length →
      ∃ values, Passes settings.palette scope m.params args values ∧
        statement settings (fuel + 1) place scope (.call pos name args) =
          statements settings fuel place []
              ⟨⟨(m.params.map Param.name).zip values, []⟩, scope.frames⟩ m.body >>=
            fun out => pure (out.1, out.2.pop.merge out.2.inner)) := by
  have hfirst := Source.requiredFirst_of_parse hparse hdefined
  have hrequired := Source.required_le_length m.params
  have hbound (hmany : Source.required m.params ≤ args.length)
      (hfit : args.length ≤ m.params.length) : ∃ values,
        Passes settings.palette scope m.params args values ∧
        enterMixin settings.palette scope name args = .ok (m, opened scope m.params values) := by
    have hoptional : ∀ i p, args.length ≤ i → ([] ++ m.params)[i]? = some p →
        p.fallback ≠ none := by
      intro i p hi hp hnone
      have := (Source.fallback_eq_none_iff hfirst hp).mp hnone
      omega
    have hall : DefaultsEvaluate settings.palette scope ([] ++ m.params) args := hdefaults hmany
    obtain ⟨values, hvalues⟩ := exists_passes hargs hall hoptional (passes_nil _ _ _)
    exact ⟨values, hvalues, enterMixin_of_enough hm hfit hdistinct hvalues⟩
  refine ⟨⟨?_, refused_of_many hm⟩, ⟨?_, refused_of_few hm hargs hfirst⟩, ?_, ?_⟩
  · intro hrefused
    by_contra hfit
    by_cases hfew : args.length < Source.required m.params
    · cases hrefused.kind_eq (refused_of_few hm hargs hfirst hfew)
    · obtain ⟨values, -, hok⟩ := hbound (Nat.le_of_not_lt hfew) (Nat.le_of_not_lt hfit)
      exact not_refused_of_ok hok _ hrefused
  · intro hrefused
    by_contra hfew
    by_cases hmany : m.params.length < args.length
    · cases hrefused.kind_eq (refused_of_many hm hmany)
    · obtain ⟨values, -, hok⟩ := hbound (Nat.le_of_not_lt hfew) (Nat.le_of_not_lt hmany)
      exact not_refused_of_ok hok _ hrefused
  · intro halt hhalt
    rw [statement, hhalt]
    rfl
  · intro hmany hfit
    obtain ⟨values, hvalues, hok⟩ := hbound hmany hfit
    refine ⟨values, hvalues, ?_⟩
    rw [statement, hok]
    rfl

/-- The parameters have the names of variables of the caller. The argument is the variable `b` of
the caller, although a parameter of that name comes later, and the default of that parameter is the
parameter `a`, although the caller has a variable of that name. -/
theorem call_binds_positionally_names :
    let m : Mixin := ⟨⟨[], 1, 0⟩, "m", [⟨"a", none⟩, ⟨"b", some "$a"⟩],
      [.property ⟨[], 2, 1⟩ "c" "$b" true []]⟩
    let scope : Scope :=
      ⟨⟨[("a", .string "x" false), ("b", .string "y" false)], [("m", m)]⟩, []⟩
    let settings : Settings Unit := ⟨.css3, [], none⟩
    let place : Place := ⟨["p"], "d-", "f"⟩
    ¬Refused settings.palette scope "m" ["$b"] .missingArgument ∧
      statement settings 9 place scope (.call .none "m" ["$b"]) =
        statements settings 8 place []
            ⟨⟨[("a", .string "y" false), ("b", .string "y" false)], []⟩, scope.frames⟩ m.body >>=
          fun out => pure (out.1, out.2.pop.merge out.2.inner) := by
  intro m scope settings place
  have hargument : Script.evaluate (scope.context settings.palette) "$b" =
      .ok (.string "y" false) := by
    with_unfolding_all rfl
  have hdefault : Script.evaluate (shadowed settings.palette scope [("a", .string "y" false)])
      "$a" = .ok (.string "y" false) := by
    with_unfolding_all rfl
  obtain ⟨src, hparse, hbody⟩ : ∃ src,
      Source.parse .either "=m($a, $b: $a)\n  c= $b" [] 1 = .ok src ∧
        src.body = [.mixin m.pos m.name m.params m.body] := ⟨_, rfl, rfl⟩
  have hargs : ArgumentsEvaluate settings.palette scope ["$b"] := by
    intro arg harg
    rw [List.mem_singleton.mp harg]
    exact ⟨_, hargument⟩
  have hvalue {params : List Param} {v : Script.Value} {values : List Script.Value}
      (h : Passes settings.palette scope params ["$b"] (v :: values)) : v = .string "y" false :=
    Except.ok.inj ((h.argument (i := 0) rfl rfl).symm.trans hargument)
  have hdefaults : DefaultsEvaluate settings.palette scope m.params ["$b"] := by
    intro done p rest expr values hparams hle hexpr hpasses
    obtain ⟨first, done, rfl⟩ := List.exists_cons_of_length_pos hle
    cases done with
    | cons second done =>
      have hlength := congrArg List.length hparams
      simp [m] at hlength
    | nil =>
      cases hparams
      cases hexpr
      obtain ⟨v, rfl⟩ := List.length_eq_one_iff.mp hpasses.length
      rw [hvalue hpasses]
      exact ⟨_, hdefault⟩
  have hdefined : src.Has (.mixin m.pos m.name m.params m.body) :=
    .top (hbody ▸ List.mem_singleton_self _)
  obtain ⟨-, hmissing, -, hcall⟩ := @call_binds_positionally Unit settings scope m "m" ["$b"] rfl
    .either _ [] 1 src hparse hdefined (by decide +kernel) hargs (fun _ => hdefaults) 8 place .none
  refine ⟨fun hrefused => absurd (hmissing.mp hrefused) (by decide +kernel), ?_⟩
  obtain ⟨values, hpasses, hexpands⟩ := hcall (by decide +kernel) (by decide +kernel)
  obtain ⟨v, rest, rfl⟩ := List.exists_cons_of_length_eq_add_one hpasses.length
  obtain ⟨w, rfl⟩ := List.length_eq_one_iff.mp (Nat.succ.inj hpasses.length)
  obtain rfl := hvalue hpasses
  obtain ⟨expr, hexpr, hw⟩ := hpasses.fallback (i := 1) (Nat.le_refl 1) rfl rfl
  cases hexpr
  obtain rfl : w = .string "y" false := Except.ok.inj (hw.symm.trans hdefault)
  exact hexpands

end Expand

end IndentedSass
