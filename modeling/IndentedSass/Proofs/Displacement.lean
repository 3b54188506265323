import IndentedSass.Proofs.FailedCompilations
import IndentedSass.Proofs.RememberedTargets

/-!
# Bounded caches forget, but do not err

A full cache puts some entry out for a new key, and nothing is said about which. `Stores` gives all
that storing a value can lead to, without the number by which `add` is told what to put out, and
`stores_iff_add` shows that these numbers reach each of the outcomes and no other.

A client asks (`Request`) and sees (`Event`). From what it has seen it can tell the value that was
stored last for a key (`stored?`), as in a memory without a bound. After any requests and whatever
had to go, the cache knows that value or none (`Sound.after`), and it can be relied on in all that
is asked next (`Dependable`).

Whether a computation runs does not show in its result. So `getOrComputeM` takes one with effects,
such as counting how often it runs, and is `getOrCompute` where there are none
(`getOrComputeM_pure`).
-/

namespace IndentedSass.Bounded

/-! ## Computations with effects -/

section Effects
variable {κ υ : Type} [BEq κ] {m : Type → Type} [Monad m]

/-- `getOrCompute` for a computation with effects, which take place when it runs. -/
def getOrComputeM (victim : Nat) (k : κ) (f : m (Except Fault υ)) (c : Bounded κ υ) :
    m (Except Fault υ × Bounded κ υ) :=
  match c.get? k with
  | some v => pure (.ok v, c)
  | none => do
    match ← f with
    | .ok v => return (.ok v, (c.add victim k v).2)
    | .error fault => return (.error fault, c)

/-- A computation that counts how often it runs. -/
def counted (f : Unit → Except Fault υ) : StateM Nat (Except Fault υ) := do
  modify (· + 1)
  return f ()

/-- How often the computation runs when the value of a key is asked for. -/
def calls (victim : Nat) (k : κ) (f : Unit → Except Fault υ) (c : Bounded κ υ) : Nat :=
  ((c.getOrComputeM victim k (counted f)).run 0).2

variable {c : Bounded κ υ} {k : κ}

/-- Where a value is found, no effect takes place. -/
theorem getOrComputeM_of_some {v : υ} (h : c.get? k = some v) (victim : Nat)
    (f : m (Except Fault υ)) : c.getOrComputeM victim k f = pure (.ok v, c) := by
  rw [getOrComputeM, h]

/-- Without effects there is no difference. -/
theorem getOrComputeM_pure [LawfulMonad m] (victim : Nat) (k : κ) (f : Unit → Except Fault υ)
    (c : Bounded κ υ) :
    c.getOrComputeM victim k (pure (f ()) : m _) = pure (c.getOrCompute victim k f) := by
  cases h : c.get? k with
  | some v => rw [getOrComputeM_of_some h, getOrCompute, h]
  | none =>
    rw [getOrComputeM, getOrCompute, h]
    dsimp only
    rw [pure_bind]
    cases f () <;> rfl

/-- The computation runs once if the key is absent, and not at all if it is present. -/
theorem run_getOrComputeM_counted (victim : Nat) (k : κ) (f : Unit → Except Fault υ)
    (c : Bounded κ υ) :
    (c.getOrComputeM victim k (counted f)).run 0 =
      (c.getOrCompute victim k f, if (c.get? k).isNone then 1 else 0) := by
  rw [getOrCompute]
  cases h : c.get? k with
  | some v =>
    rw [getOrComputeM_of_some h]
    rfl
  | none =>
    rw [getOrComputeM, h]
    dsimp only [counted]
    cases f () <;> rfl

theorem calls_eq (victim : Nat) (k : κ) (f : Unit → Except Fault υ) (c : Bounded κ υ) :
    c.calls victim k f = if (c.get? k).isNone then 1 else 0 := by
  rw [calls, run_getOrComputeM_counted]

end Effects

/-! ## Storing -/

section Storing
variable {κ υ : Type}

/-- Each key has one entry. -/
def Distinct (c : Bounded κ υ) : Prop := (c.items.map Prod.fst).Nodup

/-- The cache with other entries. -/
def withItems (c : Bounded κ υ) (items : List (κ × υ)) : Bounded κ υ := { c with items }

@[simp] theorem items_withItems (c : Bounded κ υ) (items : List (κ × υ)) :
    (c.withItems items).items = items := rfl

/-- What storing a value can lead to, and whether it is said that an entry was displaced: a key that
is present gets the value, a new key comes last, and in a full cache one entry goes for it. -/
inductive Stores (c : Bounded κ υ) (k : κ) (v : υ) : Bool → Bounded κ υ → Prop
  | replaced {before after : List (κ × υ)} {w : υ} (hitems : c.items = before ++ (k, w) :: after) :
    Stores c k v false (c.withItems (before ++ (k, v) :: after))
  | added (hnew : ∀ w, (k, w) ∉ c.items) (hroom : (c.length : Int) < c.size) :
    Stores c k v false (c.withItems (c.items ++ [(k, v)]))
  | displaced {before after : List (κ × υ)} {lost : κ × υ} (hnew : ∀ w, (k, w) ∉ c.items)
    (hfull : c.size ≤ (c.length : Int)) (hitems : c.items = before ++ lost :: after) :
    Stores c k v true (c.withItems (before ++ after ++ [(k, v)]))

variable {c c' : Bounded κ υ} {k key : κ} {v w : υ} {b : Bool}

/-- The entries beside one are those of the other keys. -/
theorem Distinct.mem_beside_iff {before after : List (κ × υ)} {one entry : κ × υ} (hc : c.Distinct)
    (hitems : c.items = before ++ one :: after) :
    entry ∈ before ++ after ↔ entry ∈ c.items ∧ entry.1 ≠ one.1 := by
  rw [Distinct, hitems, (List.perm_middle.map Prod.fst).nodup_iff, List.map_cons,
    List.nodup_cons] at hc
  rw [hitems, List.perm_middle.mem_iff, List.mem_cons]
  constructor
  · intro hmem
    exact ⟨.inr hmem, fun hkey => hc.1 (hkey ▸ List.mem_map_of_mem hmem)⟩
  · rintro ⟨rfl | hmem, hkey⟩
    · exact absurd rfl hkey
    · exact hmem

theorem Distinct.ne_of_mem_before {before after : List (κ × υ)} {entry : κ × υ} (hc : c.Distinct)
    (hitems : c.items = before ++ (k, v) :: after) (hentry : entry ∈ before) : entry.1 ≠ k :=
  ((hc.mem_beside_iff hitems).mp (List.mem_append_left after hentry)).2

namespace Stores

/-- An entry is said to be displaced only for a new key, and only in a full cache. -/
theorem eq_true_iff (h : Stores c k v b c') :
    b = true ↔ (∀ w, (k, w) ∉ c.items) ∧ c.size ≤ (c.length : Int) := by
  cases h with
  | @replaced before after w hitems =>
    have hmem : (k, w) ∈ c.items := by simp [hitems]
    simpa using fun hnew => absurd hmem (hnew w)
  | added hnew hroom => simpa using fun _ => hroom
  | displaced hnew hfull _ => simpa using ⟨hnew, hfull⟩

theorem size_eq (h : Stores c k v b c') : c'.size = c.size := by
  cases h <;> rfl

theorem length_le (h : Stores c k v b c') (hbound : (c.length : Int) ≤ c.size) :
    (c'.length : Int) ≤ c.size := by
  cases h with
  | replaced hitems =>
    simp only [length, hitems, items_withItems, List.length_append, List.length_cons] at hbound ⊢
    omega
  | added _ hroom =>
    simp only [length, items_withItems, List.length_append, List.length_singleton] at hroom ⊢
    omega
  | displaced _ _ hitems =>
    simp only [length, hitems, items_withItems, List.length_append, List.length_cons,
      List.length_nil] at hbound ⊢
    omega

theorem mem_self (h : Stores c k v b c') : (k, v) ∈ c'.items := by
  cases h <;> simp

theorem mem_or {entry : κ × υ} (h : Stores c k v b c') (hmem : entry ∈ c'.items) :
    entry = (k, v) ∨ entry ∈ c.items := by
  cases h with
  | replaced hitems | displaced _ _ hitems =>
    simp only [items_withItems, hitems, List.mem_append, List.mem_cons] at hmem ⊢
    tauto
  | added => simpa [or_comm] using hmem

theorem distinct (h : Stores c k v b c') (hc : c.Distinct) : c'.Distinct := by
  -- the keys stay as they are, or a new one comes after some of them
  have hlast {keys : List κ} (hkeys : keys.Nodup) (hnew : k ∉ keys) : (keys ++ [k]).Nodup :=
    List.nodup_append.mpr ⟨hkeys, List.nodup_singleton k, fun a ha b hb => by
      rw [List.mem_singleton.mp hb]
      exact fun hab => hnew (hab ▸ ha)⟩
  rw [Distinct] at hc ⊢
  cases h with
  | replaced hitems => simpa [hitems] using hc
  | added hnew _ =>
    rw [items_withItems, List.map_append]
    exact hlast hc (by simpa using hnew)
  | @displaced before after lost hnew _ hitems =>
    rw [items_withItems, List.map_append]
    have hsub : (before ++ after).Sublist c.items := by
      rw [hitems]
      exact List.Sublist.append_left (List.sublist_cons_self _ _) _
    refine hlast ((hsub.map Prod.fst).nodup hc) fun hmem => ?_
    obtain ⟨⟨key, w⟩, hentry, rfl⟩ := List.mem_map.mp hmem
    exact hnew w (hsub.subset hentry)

end Stores

variable [BEq κ]

/-- A key that has a value in one cache and none in a later one. -/
def Loses (c c' : Bounded κ υ) (key : κ) : Prop := c.get? key ≠ none ∧ c'.get? key = none

theorem add_of_some (h : c.get? k = some w) (victim : Nat) :
    c.add victim k v = (false, c.withItems (replace k v c.items)) := by
  rw [add, h]
  rfl

theorem add_of_room (hnew : c.get? k = none) (hroom : (c.length : Int) < c.size) (victim : Nat) :
    c.add victim k v = (false, c.withItems (c.items ++ [(k, v)])) := by
  rw [add, hnew, (isFull_eq_false c).mpr hroom]
  rfl

theorem add_of_full (hnew : c.get? k = none) (hfull : c.size ≤ (c.length : Int)) (victim : Nat) :
    c.add victim k v =
      (true, c.withItems (c.items.eraseIdx (victim % c.items.length) ++ [(k, v)])) := by
  have hisFull : c.isFull = true := decide_eq_true hfull
  rw [add, hnew, hisFull]
  rfl

variable [LawfulBEq κ]

theorem get?_eq_none_iff : c.get? k = none ↔ ∀ w, (k, w) ∉ c.items := by
  rw [get?, List.lookup_eq_none_iff]
  constructor
  · intro h w hmem
    simpa using h _ hmem
  · rintro h ⟨key, w⟩ hmem
    rw [bne_iff_ne]
    rintro rfl
    exact h w hmem

theorem mem_of_get? (h : c.get? k = some v) : (k, v) ∈ c.items := Recent.mem_of_lookup h

/-- Where keys are distinct, what is found is what is there. -/
theorem Distinct.get?_eq_some_iff (hc : c.Distinct) : c.get? k = some v ↔ (k, v) ∈ c.items := by
  refine ⟨mem_of_get?, fun hmem => ?_⟩
  obtain ⟨before, after, hitems⟩ := List.append_of_mem hmem
  refine List.lookup_eq_some_iff.mpr ⟨before, after, hitems, fun entry hentry => ?_⟩
  rw [bne_iff_ne]
  exact (hc.ne_of_mem_before hitems hentry).symm

theorem replace_append {before : List (κ × υ)} (hbefore : ∀ entry ∈ before, entry.1 ≠ k)
    (after : List (κ × υ)) :
    replace k v (before ++ (k, w) :: after) = before ++ (k, v) :: after := by
  induction before with
  | nil => simp [replace]
  | cons entry before ih =>
    obtain ⟨hentry, hrest⟩ := List.forall_mem_cons.1 hbefore
    rw [List.cons_append, replace, if_neg (by simpa using hentry), ih hrest]
    rfl

/-- **All that storing a value can lead to.** Every entry of a full cache is put out for some
number, and nothing else happens for any. -/
theorem stores_iff_add (hc : c.Distinct) (hsize : 1 ≤ c.size) :
    Stores c k v b c' ↔ ∃ victim, c.add victim k v = (b, c') := by
  constructor
  · intro h
    cases h with
    | @replaced before after w hitems =>
      have hget : c.get? k = some w := hc.get?_eq_some_iff.mpr (by simp [hitems])
      refine ⟨0, ?_⟩
      rw [add_of_some hget, hitems, replace_append fun _ => hc.ne_of_mem_before hitems]
    | added hnew hroom => exact ⟨0, add_of_room (get?_eq_none_iff.mpr hnew) hroom 0⟩
    | @displaced before after lost hnew hfull hitems =>
      have hlt : before.length < c.items.length := by simp [hitems]
      refine ⟨before.length, ?_⟩
      rw [add_of_full (get?_eq_none_iff.mpr hnew) hfull, Nat.mod_eq_of_lt hlt, hitems,
        List.eraseIdx_append_of_length_le (Nat.le_refl _), Nat.sub_self]
      rfl
  · rintro ⟨victim, hadd⟩
    cases hget : c.get? k with
    | some w =>
      obtain ⟨before, after, hitems⟩ := List.append_of_mem (mem_of_get? hget)
      rw [add_of_some hget, hitems, replace_append fun _ => hc.ne_of_mem_before hitems] at hadd
      cases hadd
      exact .replaced hitems
    | none =>
      have hnew := get?_eq_none_iff.mp hget
      rcases Int.lt_or_le c.length c.size with hroom | hfull
      · rw [add_of_room hget hroom] at hadd
        cases hadd
        exact .added hnew hroom
      · have hpos : 0 < c.items.length := by
          rw [length] at hfull
          omega
        have hlt : victim % c.items.length < c.items.length := Nat.mod_lt _ hpos
        have hitems := List.take_append_drop (victim % c.items.length) c.items
        rw [← List.getElem_cons_drop hlt] at hitems
        rw [add_of_full hget hfull, List.eraseIdx_eq_take_drop_succ] at hadd
        cases hadd
        exact .displaced hnew hfull hitems.symm

/-! ## What is lost -/

theorem not_loses (h : ∀ w, (key, w) ∈ c.items → ∃ w', (key, w') ∈ c'.items) :
    ¬ c.Loses c' key := by
  rintro ⟨hheld, hgone⟩
  obtain ⟨w, hw⟩ := Option.ne_none_iff_exists'.mp hheld
  obtain ⟨w', hmem⟩ := h w (mem_of_get? hw)
  exact get?_eq_none_iff.mp hgone w' hmem

/-- The entry that makes room is lost, and no other. -/
theorem loses_iff {before after : List (κ × υ)} {lost : κ × υ} (hc : c.Distinct)
    (hnew : ∀ w, (k, w) ∉ c.items) (hitems : c.items = before ++ lost :: after) :
    c.Loses (c.withItems (before ++ after ++ [(k, v)])) key ↔ key = lost.1 := by
  have hmem : lost ∈ c.items := by simp [hitems]
  constructor
  · intro hkey
    by_contra hne
    refine not_loses (fun w hw => ⟨w, ?_⟩) hkey
    rw [items_withItems, List.mem_append, hc.mem_beside_iff hitems]
    exact .inl ⟨hw, hne⟩
  · rintro rfl
    constructor
    · rw [hc.get?_eq_some_iff.mpr hmem]
      exact Option.some_ne_none _
    · rw [get?_eq_none_iff]
      intro w hw
      rw [items_withItems, List.mem_append, hc.mem_beside_iff hitems, List.mem_singleton] at hw
      rcases hw with ⟨-, hne⟩ | heq
      · exact hne rfl
      · obtain ⟨rfl, -⟩ := Prod.mk.inj heq
        exact hnew lost.2 hmem

/-- Any entry may have to make room. -/
theorem exists_victim (hc : c.Distinct) (hsize : 1 ≤ c.size) (hnew : c.get? k = none)
    (hfull : c.size ≤ (c.length : Int)) (hkey : c.get? key ≠ none) :
    ∃ victim, c.Loses (c.add victim k v).2 key := by
  obtain ⟨w, hw⟩ := Option.ne_none_iff_exists'.mp hkey
  obtain ⟨before, after, hitems⟩ := List.append_of_mem (mem_of_get? hw)
  rw [get?_eq_none_iff] at hnew
  obtain ⟨victim, hadd⟩ :=
    (stores_iff_add hc hsize).mp (Stores.displaced (v := v) hnew hfull hitems)
  refine ⟨victim, ?_⟩
  rw [hadd]
  exact (loses_iff hc hnew hitems).mpr rfl

namespace Stores

theorem get?_self (h : Stores c k v b c') (hc : c.Distinct) : c'.get? k = some v :=
  (h.distinct hc).get?_eq_some_iff.mpr h.mem_self

/-- Another key has the value that it had, or none. -/
theorem get?_of_ne (h : Stores c k v b c') (hc : c.Distinct) (hkey : key ≠ k)
    (hget : c'.get? key = some w) : c.get? key = some w := by
  rcases h.mem_or (mem_of_get? hget) with heq | hmem
  · exact absurd (congrArg Prod.fst heq) hkey
  · exact hc.get?_eq_some_iff.mpr hmem

/-- Nothing is lost unless it is said. -/
theorem not_loses (h : Stores c k v false c') (key : κ) : ¬ c.Loses c' key := by
  refine Bounded.not_loses fun w hmem => ?_
  cases h with
  | replaced hitems =>
    by_cases hkey : key = k
    · exact ⟨v, by simp [hkey]⟩
    · exact ⟨w, by simpa [hitems, hkey] using hmem⟩
  | added => exact ⟨w, by simp [hmem]⟩

/-- Where it is said that something was lost, it is one entry. -/
theorem existsUnique_loses (h : Stores c k v true c') (hc : c.Distinct) :
    ∃! key, c.Loses c' key := by
  cases h with
  | @displaced before after lost hnew _ hitems =>
    exact ⟨lost.1, (loses_iff hc hnew hitems).mpr rfl, fun _ => (loses_iff hc hnew hitems).mp⟩

end Stores

theorem get?_erase (c : Bounded κ υ) (k key : κ) :
    (c.erase k).get? key = if key == k then none else c.get? key :=
  Recent.lookup_without k key c.items

end Storing

/-! ## Requests and events -/

/-- What is asked of a cache. Where an entry has to make room, `victim` is its number. -/
inductive Request (κ υ : Type) where
  | get (k : κ)
  | add (victim : Nat) (k : κ) (v : υ)
  | delete (k : κ)
  | compute (victim : Nat) (k : κ) (f : Unit → Except Fault υ)

/-- What a client sees when a request is served. -/
inductive Event (κ υ : Type) where
  | got (k : κ) (found : Option υ)
  | added (k : κ) (v : υ) (displaced : Bool)
  | deleted (k : κ)
  | computed (k : κ) (calls : Nat) (result : Except Fault υ)

variable {κ υ : Type} [BEq κ] {c c' : Bounded κ υ} {k : κ} {v : υ} {b : Bool}

/-- Serves a request. -/
def serve (c : Bounded κ υ) : Request κ υ → Event κ υ × Bounded κ υ
  | .get k => (.got k (c.get? k), c)
  | .add victim k v => (.added k v (c.add victim k v).1, (c.add victim k v).2)
  | .delete k => (.deleted k, c.erase k)
  | .compute victim k f =>
    (.computed k (c.calls victim k f) (c.getOrCompute victim k f).1, (c.getOrCompute victim k f).2)

/-- The events of a sequence of requests. -/
def history (c : Bounded κ υ) : List (Request κ υ) → List (Event κ υ)
  | [] => []
  | r :: requests => (c.serve r).1 :: (c.serve r).2.history requests

/-- The cache after a sequence of requests. -/
def after (c : Bounded κ υ) : List (Request κ υ) → Bounded κ υ
  | [] => c
  | r :: requests => (c.serve r).2.after requests

/-- The value that an event leaves for a key in a memory without a bound. A computation stores its
value if it runs and does not fail. -/
def Event.leaves (k : κ) (held : Option υ) : Event κ υ → Option υ
  | .got _ _ => held
  | .added key v _ => if key == k then some v else held
  | .deleted key => if key == k then none else held
  | .computed key calls (.ok v) => if key == k && calls != 0 then some v else held
  | .computed _ _ (.error _) => held

/-- The value that was stored last for a key, if the key was not deleted since. -/
def stored? (k : κ) (past : List (Event κ υ)) : Option υ := past.foldl (Event.leaves k) none

theorem stored?_concat (k : κ) (past : List (Event κ υ)) (e : Event κ υ) :
    stored? k (past ++ [e]) = e.leaves k (stored? k past) :=
  List.foldl_concat _ _ e past

/-! ## Any requests -/

/-- A cache of a size that has kept to it, and whose values agree with what happened. -/
structure Sound (size : Int) (past : List (Event κ υ)) (c : Bounded κ υ) : Prop where
  size_eq : c.size = size
  bounded : (c.length : Int) ≤ size
  distinct : c.Distinct
  right : ∀ k v, c.get? k = some v → stored? k past = some v

namespace Sound
variable {size : Int} {past : List (Event κ υ)} {e : Event κ υ}

theorem empty {size : Int} (hsize : 1 ≤ size) : Sound size [] (empty size : Bounded κ υ) where
  size_eq := rfl
  bounded := by
    simp only [length, Bounded.empty, List.length_nil]
    omega
  distinct := List.nodup_nil
  right := by
    intro k v h
    cases h

/-- An event that stores nothing and deletes nothing. -/
theorem pass (h : Sound size past c) (he : ∀ key held, e.leaves key held = held) :
    Sound size (past ++ [e]) c where
  size_eq := h.size_eq
  bounded := h.bounded
  distinct := h.distinct
  right := by
    intro key w hget
    rw [stored?_concat, he]
    exact h.right key w hget

variable [LawfulBEq κ]

theorem stores (h : Sound size past c) (hsize : 1 ≤ size) (victim : Nat) (k : κ) (v : υ) :
    Stores c k v (c.add victim k v).1 (c.add victim k v).2 :=
  (stores_iff_add h.distinct (h.size_eq.symm ▸ hsize)).mpr ⟨victim, rfl⟩

/-- An event that stores a value. -/
theorem store (h : Sound size past c) (hs : Stores c k v b c')
    (he : ∀ key held, e.leaves key held = if k == key then some v else held) :
    Sound size (past ++ [e]) c' where
  size_eq := hs.size_eq.trans h.size_eq
  bounded := by
    have hbound := h.bounded
    rw [← h.size_eq] at hbound ⊢
    exact hs.length_le hbound
  distinct := hs.distinct h.distinct
  right := by
    intro key w hget
    rw [stored?_concat, he]
    by_cases hkey : key = k
    · subst hkey
      rw [hs.get?_self h.distinct] at hget
      simpa using hget
    · rw [if_neg (by simpa using Ne.symm hkey)]
      exact h.right key w (hs.get?_of_ne h.distinct hkey hget)

theorem delete (h : Sound size past c) (k : κ) : Sound size (past ++ [.deleted k]) (c.erase k) where
  size_eq := h.size_eq
  bounded := by
    have hshort : (c.erase k).length ≤ c.length := List.length_filter_le _ _
    have hbound := h.bounded
    omega
  distinct := (List.filter_sublist.map Prod.fst).nodup h.distinct
  right := by
    intro key w hget
    rw [get?_erase] at hget
    rw [stored?_concat, Event.leaves]
    by_cases hkey : key = k
    · simp [hkey] at hget
    · rw [if_neg (by simpa using hkey)] at hget
      rw [if_neg (by simpa using Ne.symm hkey)]
      exact h.right key w hget

/-- A computation stores its value if the key is absent, and leaves the cache as it is if there is a
value or a fault. -/
theorem compute (h : Sound size past c) (hsize : 1 ≤ size) (victim : Nat) (k : κ)
    (f : Unit → Except Fault υ) :
    Sound size (past ++ [.computed k (c.calls victim k f) (c.getOrCompute victim k f).1])
      (c.getOrCompute victim k f).2 := by
  rw [calls_eq, getOrCompute]
  cases hget : c.get? k with
  | some v =>
    refine h.pass fun key held => ?_
    simp [Event.leaves]
  | none =>
    cases f () with
    | error fault => exact h.pass fun key held => rfl
    | ok v =>
      refine h.store (h.stores hsize victim k v) fun key held => ?_
      show (if (k == key && true) = true then some v else held) = _
      rw [Bool.and_true]

/-- **One request.** -/
theorem serve (h : Sound size past c) (hsize : 1 ≤ size) (r : Request κ υ) :
    Sound size (past ++ [(c.serve r).1]) (c.serve r).2 := by
  cases r with
  | get k => exact h.pass fun key held => rfl
  | add victim k v =>
    exact h.store (h.stores hsize victim k v) fun key held => rfl
  | delete k => exact h.delete k
  | compute victim k f => exact h.compute hsize victim k f

/-- **Any requests.** -/
theorem after (h : Sound size past c) (hsize : 1 ≤ size) (requests : List (Request κ υ)) :
    Sound size (past ++ c.history requests) (c.after requests) := by
  induction requests generalizing c past with
  | nil =>
    rw [history, List.append_nil]
    exact h
  | cons r requests ih =>
    have hrest := ih (h.serve hsize r)
    rwa [List.append_assoc, List.singleton_append] at hrest

end Sound

/-! ## What can be relied on -/

/-- What can be relied on in a cache of a size after some events, whichever entry makes room. -/
structure Dependable (size : Int) (past : List (Event κ υ)) (c : Bounded κ υ) : Prop where
  bounded : (c.length : Int) ≤ size
  /-- What is found for a key is what was stored last. -/
  right : ∀ k, c.get? k = none ∨ c.get? k = stored? k past
  /-- What is stored is found. -/
  stored : ∀ victim k v, (c.add victim k v).2.get? k = some v
  /-- No other key gets another value. -/
  others : ∀ victim k v key, key ≠ k →
    (c.add victim k v).2.get? key = c.get? key ∨ c.Loses (c.add victim k v).2 key
  /-- Nothing goes for a key that is present. -/
  replaced : ∀ victim k v, c.get? k ≠ none →
    (c.add victim k v).1 = false ∧ ∀ key, ¬ c.Loses (c.add victim k v).2 key
  /-- Nothing goes where there is room. -/
  added : ∀ victim k v, c.get? k = none → (c.length : Int) ≠ size →
    (c.add victim k v).1 = false ∧ ∀ key, ¬ c.Loses (c.add victim k v).2 key
  /-- One entry goes for a new key in a full cache, and it is said so. -/
  displaced : ∀ victim k v, c.get? k = none → (c.length : Int) = size →
    (c.add victim k v).1 = true ∧ ∃! key, c.Loses (c.add victim k v).2 key
  /-- It can be any entry. -/
  anyVictim : ∀ k v key, c.get? k = none → (c.length : Int) = size → c.get? key ≠ none →
    ∃ victim, c.Loses (c.add victim k v).2 key
  /-- A computation runs if and only if the key is absent, and then once. -/
  runs : ∀ victim k f, (c.getOrComputeM victim k (counted f)).run 0 =
    (c.getOrCompute victim k f, if (c.get? k).isNone then 1 else 0)
  found : ∀ victim k f v, c.get? k = some v → c.getOrCompute victim k f = (.ok v, c)
  computed : ∀ victim k f v, c.get? k = none → f () = .ok v →
    c.getOrCompute victim k f = (.ok v, (c.add victim k v).2)
  /-- A fault leaves the cache as it is. -/
  failed : ∀ victim k f fault, c.get? k = none → f () = .error fault →
    c.getOrCompute victim k f = (.error fault, c)

namespace Sound
variable [LawfulBEq κ] {size : Int} {past : List (Event κ υ)}

/-- Nothing is lost for a value unless it is said. -/
theorem quiet (h : Sound size past c) (hsize : 1 ≤ size) {victim : Nat}
    (hnot : (c.add victim k v).1 ≠ true) :
    (c.add victim k v).1 = false ∧ ∀ key, ¬ c.Loses (c.add victim k v).2 key := by
  have hstores := h.stores hsize victim k v
  rw [Bool.eq_false_iff.mpr hnot] at hstores ⊢
  exact ⟨rfl, hstores.not_loses⟩

theorem dependable (h : Sound size past c) (hsize : 1 ≤ size) : Dependable size past c where
  bounded := h.bounded
  right := by
    intro k
    cases hget : c.get? k with
    | none => exact .inl rfl
    | some v => exact .inr (h.right k v hget).symm
  stored := fun victim k v => (h.stores hsize victim k v).get?_self h.distinct
  others := by
    intro victim k v key hkey
    cases hget : (c.add victim k v).2.get? key with
    | some w => exact .inl ((h.stores hsize victim k v).get?_of_ne h.distinct hkey hget).symm
    | none =>
      by_cases hold : c.get? key = none
      · exact .inl hold.symm
      · exact .inr ⟨hold, hget⟩
  replaced := by
    intro victim k v hpresent
    refine h.quiet hsize fun hsaid => hpresent ?_
    exact get?_eq_none_iff.mpr ((h.stores hsize victim k v).eq_true_iff.mp hsaid).1
  added := by
    intro victim k v _ hroom
    refine h.quiet hsize fun hsaid => hroom ?_
    have hfull := ((h.stores hsize victim k v).eq_true_iff.mp hsaid).2
    rw [h.size_eq] at hfull
    exact Int.le_antisymm h.bounded hfull
  displaced := by
    intro victim k v hnew hfull
    have hstores := h.stores hsize victim k v
    have hsaid : (c.add victim k v).1 = true :=
      hstores.eq_true_iff.mpr ⟨get?_eq_none_iff.mp hnew, Int.le_of_eq (h.size_eq.trans hfull.symm)⟩
    rw [hsaid] at hstores ⊢
    exact ⟨rfl, hstores.existsUnique_loses h.distinct⟩
  anyVictim := by
    intro k v key hnew hfull hkey
    have hsize' : 1 ≤ c.size := h.size_eq.symm ▸ hsize
    exact exists_victim h.distinct hsize' hnew (Int.le_of_eq (h.size_eq.trans hfull.symm)) hkey
  runs := fun victim k f => run_getOrComputeM_counted victim k f c
  found := by
    intro victim k f v hget
    rw [getOrCompute, hget]
  computed := by
    intro victim k f v hget hf
    rw [getOrCompute, hget, hf]
  failed := by
    intro victim k f fault hget hf
    rw [getOrCompute, hget, hf]

end Sound

/-- **A bounded cache forgets, but does not err.** After any requests, and whichever entries had to
make room, it can be relied on. -/
theorem forgets_but_never_errs [LawfulBEq κ] {size : Int} (hsize : 1 ≤ size)
    (requests : List (Request κ υ)) :
    Dependable size ((empty size).history requests) ((empty size).after requests) :=
  ((Sound.empty hsize).after hsize requests).dependable hsize

/-- More than two keys for a cache of two entries. -/
def crowd : List (Request Text Nat) :=
  [.add 0 "a" 1, .add 0 "b" 2, .add 0 "b" 3, .compute 1 "c" fun _ => .ok 4,
    .compute 0 "d" fun _ => .error (.plain "no"), .delete "a", .get "c"]

theorem forgets_but_never_errs_crowd :
    (1 : Int) ≤ 2 ∧ Dependable 2 ((empty 2).history crowd) ((empty 2).after crowd) :=
  ⟨by decide, forgets_but_never_errs (by decide) crowd⟩

end IndentedSass.Bounded
