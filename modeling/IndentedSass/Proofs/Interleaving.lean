import IndentedSass.Proofs.Drafts

/-!
# Overlapping calls

Calls overlap, and files are written in between. `Moves` lists where a call can get in one turn
while the memory of the instance is right, and `turn_moves` shows that every turn is of that kind.
From this come the two invariants of a system. It stays right about the disk (`System.Right`) as
long as every write respects the compilations under way: it does not change a file that one of them
has loaded, until that one has ended (`System.Permits`). And from the last write on, all calls that
start serve what the files are then (`System.Serves`), be it a kept sheet, a new one, or the one
that another call makes.
-/

namespace IndentedSass

/-! ## Writing a file -/

namespace Disk
variable {d : Disk} {path : Text} {f : File}

theorem mem_paths_of_isFile (h : d.isFile path = true) : path ∈ d.files.map Prod.fst :=
  (isSome_file?_iff d path).mp ((isFile_iff d path).mp h).2

theorem isClear_of_paths (h : ∀ path ∈ d.files.map Prod.fst, 0 ∉ path) : d.IsClear :=
  fun path hpath => h path (mem_paths_of_isFile hpath)

theorem SamePaths.trans {d' d'' : Disk} (h : d.SamePaths d') (h' : d'.SamePaths d'') :
    d.SamePaths d'' where
  files path := (h.files path).trans (h'.files path)
  dirs path := (h.dirs path).trans (h'.dirs path)
  isNative := h.isNative.trans h'.isNative

/-- Writing a file that is there neither adds nor removes a path. -/
theorem samePaths_write (h : d.isFile path = true) (f : File) : d.SamePaths (d.write path f) := by
  refine ⟨fun q => ?_, fun _ => Iff.rfl, rfl⟩
  rw [write, List.map_append, List.mem_append]
  constructor
  · intro hq
    by_cases hsame : q = path
    · exact .inr (List.mem_singleton.mpr hsame)
    · obtain ⟨entry, hentry, rfl⟩ := List.mem_map.mp hq
      exact .inl (List.mem_map.mpr ⟨entry, List.mem_filter.mpr ⟨hentry, bne_iff_ne.mpr hsame⟩, rfl⟩)
  · rintro (hq | hq)
    · obtain ⟨entry, hentry, rfl⟩ := List.mem_map.mp hq
      exact List.mem_map.mpr ⟨entry, (List.mem_filter.mp hentry).1, rfl⟩
    · rw [List.mem_singleton.mp hq]
      exact mem_paths_of_isFile h

theorem file?_write (d : Disk) (path q : Text) (f : File) :
    (d.write path f).file? q = if q = path then some f else d.file? q := by
  rw [file?, file?, write]
  dsimp only
  induction d.files with
  | nil =>
    rw [List.filter_nil, List.nil_append, List.lookup_cons]
    by_cases hq : q = path
    · rw [hq, beq_self_eq_true, if_pos rfl]
    · rw [beq_false_of_ne hq, if_neg hq]
  | cons entry files ih =>
    rw [List.filter_cons, List.lookup_cons]
    by_cases hentry : entry.1 = path
    · rw [if_neg (by simp [hentry]), ih, hentry]
      by_cases hq : q = path
      · rw [if_pos hq, if_pos hq]
      · rw [if_neg hq, if_neg hq, beq_false_of_ne hq]
    · rw [if_pos (bne_iff_ne.mpr hentry), List.cons_append, List.lookup_cons, ih]
      by_cases hq : q = entry.1
      · rw [hq, beq_self_eq_true]
        exact (if_neg hentry).symm
      · rw [beq_false_of_ne hq]

/-- Another path looks as before. -/
theorem look_write_of_ne {q : Text} (h : d.isFile path = true) (hq : q ≠ path) :
    (d.write path f).look q = d.look q := by
  have hpaths := samePaths_write h f
  have hup : (fun dir => ((d.write path f).file? dir).isSome) = fun dir => (d.file? dir).isSome :=
    funext fun dir => (hpaths.isSome_file? dir).symm
  have hdir : (d.write path f).isDir = d.isDir := funext fun dir => (hpaths.isDir dir).symm
  have hfile : (d.write path f).file? q = d.file? q := (file?_write ..).trans (if_neg hq)
  simp only [look, hfile, ← hpaths.isNative, hdir, hup]

theorem file?_of_look {f : File} (h : d.look path = .file f) : d.file? path = some f := by
  rw [look] at h
  split at h
  · split at h <;> cases h
  · cases hfile : d.file? path with
    | some f' =>
      rw [hfile] at h
      cases h
      rfl
    | none =>
      rw [hfile] at h
      dsimp only at h
      repeat' split at h
      all_goals cases h

theorem look_write_self (h : d.isFile path = true) (f : File) :
    (d.write path f).look path = .file f := by
  obtain ⟨f', hlook⟩ := look_of_isFile ((samePaths_write h f).isFile path ▸ h)
  have hfile := file?_of_look hlook
  rw [file?_write, if_pos rfl] at hfile
  cases hfile
  exact hlook

theorem Earlier.refl (d : Disk) : d.Earlier d where
  paths := ⟨fun _ => Iff.rfl, fun _ => Iff.rfl, rfl⟩
  dated path f f' hlook hlook' _ := by
    cases hlook.symm.trans hlook'
    rfl

/-- A file that gets a time it never had. -/
theorem Earlier.write {d₀ : Disk} (h : d₀.Earlier d) (hpath : d.isFile path = true)
    (hnew : ∀ f₀, d₀.look path = .file f₀ →
      Service.Sheets.nanoseconds f₀.mtime ≠ Service.Sheets.nanoseconds f.mtime) :
    d₀.Earlier (d.write path f) where
  paths := h.paths.trans (samePaths_write hpath f)
  dated q f₀ f' hlook₀ hlook htime := by
    by_cases hq : q = path
    · subst hq
      rw [look_write_self hpath] at hlook
      cases hlook
      exact absurd htime (hnew f₀ hlook₀)
    · rw [look_write_of_ne hpath hq] at hlook
      exact h.dated q f₀ f' hlook₀ hlook htime

end Disk

namespace Service

/-! ## Moves -/

section Moves
variable {o : SheetOptions} {lib : Library} {seen : List Disk} {d : Disk} {order : Order}
  {name style now : Text} {calls : List Call} {stage stage' : Stage} {m : Sheets}

/-- What compiling anew answers to an order. -/
def Order.answer (lib : Library) (d : Disk) (order : Order) : Except Fault Text :=
  (order.compiler.compileAnew lib d order.path).css.mapError Expand.Stop.toFault

/-- Where a call can get in one turn while the memory of the instance is right. -/
inductive Moves (o : SheetOptions) (lib : Library) (seen : List Disk) (d : Disk)
    (calls : List Call) (name style : Text) : Stage → Stage → Prop
  | refused {fault : Fault} (make : Order.make o name style = .error fault) :
    Moves o lib seen d calls name style .called (.ended (.error fault))
  | misses {order : Order} (make : Order.make o name style = .ok order) :
    Moves o lib seen d calls name style .called (.missed order)
  | checks {order : Order} {entry : Nat × Sheet} {d₀ : Disk}
    (make : Order.make o name style = .ok order) (mem : d₀ ∈ seen)
    (made : Made lib d₀ order entry.2) :
    Moves o lib seen d calls name style .called
      (.checking order entry (entry.2.files.zip entry.2.modTimes))
  | holds {order : Order} {entry : Nat × Sheet} :
    Moves o lib seen d calls name style (.checking order entry []) (.ended (.ok entry))
  | current {order : Order} {entry : Nat × Sheet} {file : Text} {stamp time : Int}
    {rest : List (Text × Int)} (modTime : lib.modTime d file = .ok time)
    (stamp_eq : Sheets.nanoseconds time = stamp) :
    Moves o lib seen d calls name style (.checking order entry ((file, stamp) :: rest))
      (.checking order entry rest)
  | stale {order : Order} {entry : Nat × Sheet} {noted : Text × Int} {rest : List (Text × Int)} :
    Moves o lib seen d calls name style (.checking order entry (noted :: rest)) (.missed order)
  | joins {order : Order} {j : Nat} (leader : leader? calls order.key = some j) :
    Moves o lib seen d calls name style (.missed order) (.waiting order j)
  | starts {order : Order} : Moves o lib seen d calls name style (.missed order)
      (.compiling order .new (.resolve order.path []))
  | gets {order : Order} {j : Nat} {leader : Call} {result : Except Fault (Nat × Sheet)}
    (mem : calls[j]? = some leader) (ended : leader.stage = .ended result) :
    Moves o lib seen d calls name style (.waiting order j) (.ended result)
  | waits {order : Order} {j : Nat}
    (busy : ∀ leader result, calls[j]? = some leader → leader.stage ≠ .ended result) :
    Moves o lib seen d calls name style (.waiting order j) (.waiting order j)
  | works {order : Order} {draft : Draft} {phase : Phase} {y : Draft × Phase}
    (goes : Goes lib seen d order draft phase y) :
    Moves o lib seen d calls name style (.compiling order draft phase) (.compiling order y.1 y.2)
  | lands {order : Order} {draft : Draft} {result : Except Fault (Nat × Sheet)} :
    Moves o lib seen d calls name style (.compiling order draft (.land result)) (.ended result)
  | rests {result : Except Fault (Nat × Sheet)} :
    Moves o lib seen d calls name style (.ended result) (.ended result)

/-- A call has the order for its name and style, and is right about the disk when it compiles. -/
inductive Stage.Right (o : SheetOptions) (lib : Library) (seen : List Disk) (d : Disk)
    (name style : Text) : Stage → Prop
  | called : Right o lib seen d name style .called
  | checking {order : Order} {entry : Nat × Sheet} {rest : List (Text × Int)}
    (make : Order.make o name style = .ok order) :
    Right o lib seen d name style (.checking order entry rest)
  | missed {order : Order} (make : Order.make o name style = .ok order) :
    Right o lib seen d name style (.missed order)
  | waiting {order : Order} {leader : Nat} (make : Order.make o name style = .ok order) :
    Right o lib seen d name style (.waiting order leader)
  | compiling {order : Order} {draft : Draft} {phase : Phase}
    (make : Order.make o name style = .ok order) (doing : Doing lib seen d order draft phase) :
    Right o lib seen d name style (.compiling order draft phase)
  | ended {result : Except Fault (Nat × Sheet)} : Right o lib seen d name style (.ended result)

/-- **A move keeps a call right.** -/
theorem Moves.right (hlib : lib.Rooted) (hd : d ∈ seen)
    (hmoves : Moves o lib seen d calls name style stage stage')
    (h : stage.Right o lib seen d name style) : stage'.Right o lib seen d name style := by
  cases hmoves with
  | refused | holds | gets | lands | rests => exact .ended
  | misses make => exact .missed make
  | checks make => exact .checking make
  | current =>
    cases h with | checking make => exact .checking make
  | stale =>
    cases h with | checking make => exact .missed make
  | joins =>
    cases h with | missed make => exact .waiting make
  | starts =>
    cases h with | missed make => exact .compiling make (.resolve .first)
  | waits => exact h
  | works goes =>
    cases h with | compiling make doing => exact .compiling make (goes.doing hlib hd doing)

section Turns
variable (hm : m.Right o lib seen d)
include hm

/-- A call that comes in is refused, finds a kept sheet to check, or misses. -/
theorem moves_called :
    Moves o lib seen d calls name style .called
        (Call.turn calls now d m ⟨name, style, .called⟩).1 ∧
      (Call.turn calls now d m ⟨name, style, .called⟩).2.Right o lib seen d := by
  have hget : ∀ key, ∀ entry ∈ (m.kept.get? key).2.items, entry ∈ m.kept.items :=
    fun _ _ => Recent.laws.mem_get _ _ _
  cases hmake : Order.make m.setup name style with
  | error fault =>
    rw [System.turn_called_error hmake]
    exact ⟨.refused (hm.setup ▸ hmake), hm⟩
  | ok order =>
    have hmake' : Order.make o name style = .ok order := hm.setup ▸ hmake
    have hkept := hget order.key
    have hfound : ∀ entry, (m.kept.get? order.key).1 = some entry →
        ∃ d₀ ∈ seen, Made lib d₀ order entry.2 := by
      intro entry hentry
      obtain ⟨order', horder', hkey, hmade⟩ := hm.kept _ _ (Recent.mem_of_get? hentry)
      rwa [Order.eq_of_key horder' ⟨name, style, hmake'⟩ hkey] at hmade
    rcases hresult : m.kept.get? order.key with ⟨_ | entry, kept⟩ <;> rw [hresult] at hkept hfound
    · rw [System.turn_called_none hmake hresult]
      exact ⟨.misses hmake', hm.withKept hkept⟩
    · rw [System.turn_called_some hmake hresult]
      refine ⟨?_, hm.withKept hkept⟩
      dsimp only
      split
      · obtain ⟨d₀, hd₀, hmade⟩ := hfound entry rfl
        exact .checks hmake' hd₀ hmade
      · exact .misses hmake'

/-- The times of a kept sheet are compared one by one, and the first that has changed makes it a
miss. -/
theorem moves_checking (entry : Nat × Sheet) (rest : List (Text × Int)) :
    Moves o lib seen d calls name style (.checking order entry rest)
        (Call.turn calls now d m ⟨name, style, .checking order entry rest⟩).1 ∧
      (Call.turn calls now d m ⟨name, style, .checking order entry rest⟩).2.Right o lib seen d := by
  rcases rest with _ | ⟨⟨file, stamp⟩, rest⟩
  · exact ⟨.holds, hm⟩
  · unfold Call.turn
    dsimp only
    split
    · rename_i hstill
      unfold Sheets.stillAt at hstill
      dsimp only at hstill
      rw [hm.memory.modTime_eq] at hstill
      cases htime : lib.modTime d file with
      | error fault =>
        rw [htime] at hstill
        cases hstill
      | ok time =>
        rw [htime] at hstill
        exact ⟨.current htime (of_decide_eq_true hstill), hm⟩
    · exact ⟨.stale, hm⟩

/-- Of the calls that miss the same sheet, one compiles and the others wait for it. -/
theorem moves_missed :
    Moves o lib seen d calls name style (.missed order)
        (Call.turn calls now d m ⟨name, style, .missed order⟩).1 ∧
      (Call.turn calls now d m ⟨name, style, .missed order⟩).2.Right o lib seen d := by
  unfold Call.turn
  dsimp only
  cases hleader : leader? calls order.key with
  | some j => exact ⟨.joins hleader, hm⟩
  | none => exact ⟨.starts, hm⟩

/-- A call that waits takes over the result of the one that compiles. -/
theorem moves_waiting (j : Nat) :
    Moves o lib seen d calls name style (.waiting order j)
        (Call.turn calls now d m ⟨name, style, .waiting order j⟩).1 ∧
      (Call.turn calls now d m ⟨name, style, .waiting order j⟩).2.Right o lib seen d := by
  unfold Call.turn
  dsimp only
  split
  · rename_i hleader
    exact ⟨.gets hleader rfl, hm⟩
  · rename_i hbusy
    refine ⟨.waits fun leader result hleader hended => ?_, hm⟩
    obtain ⟨name', style', stage⟩ := leader
    cases hended
    exact hbusy name' style' result hleader

/-- **A turn of a call is a move that it can make**, and leaves the memory right. -/
theorem turn_moves (hlib : lib.Rooted) (hclear : d.IsClear) (hd : d ∈ seen)
    (hkeeps : ∀ d₀ ∈ seen, Disk.Keeps d₀ d) (h : stage.Right o lib seen d name style) :
    Moves o lib seen d calls name style stage (Call.turn calls now d m ⟨name, style, stage⟩).1 ∧
      (Call.turn calls now d m ⟨name, style, stage⟩).2.Right o lib seen d := by
  cases h with
  | called => exact moves_called hm
  | checking make => exact moves_checking hm _ _
  | missed make => exact moves_missed hm
  | waiting make => exact moves_waiting hm _
  | @compiling order draft phase make doing =>
    by_cases hland : ∃ result, phase = .land result
    · obtain ⟨result, rfl⟩ := hland
      exact ⟨.lands, hm⟩
    · have hphase : ∀ result, phase ≠ .land result := fun result h => hland ⟨result, h⟩
      have horder : order.IsOf o := ⟨name, style, make⟩
      obtain ⟨hgoes, hlibrary⟩ := @turn_goes lib seen d order draft o.way m now hm.memory
        horder.propertySyntax phase hlib hclear hkeeps doing hphase
      rw [System.turn_compiling hphase]
      exact ⟨.works hgoes, turn_right hm horder hd doing hlibrary⟩
  | ended => exact ⟨.rests, hm⟩

end Turns

/-! ## Calls that start after the last write -/

theorem Stamped.exists_stamp {files : List Text} {times : List Int}
    (h : Stamped lib d files times) : ∀ p ∈ files, ∃ stamp time, (p, stamp) ∈ files.zip times ∧
      lib.modTime d p = .ok time ∧ Sheets.nanoseconds time = stamp := by
  induction h with
  | nil => exact List.forall_mem_nil _
  | cons hfirst _ ih =>
    obtain ⟨time, htime, hstamp⟩ := hfirst
    refine List.forall_mem_cons.mpr ⟨⟨_, time, List.mem_cons_self, htime, hstamp⟩, fun p hp => ?_⟩
    obtain ⟨stamp, time, hmem, hp⟩ := ih p hp
    exact ⟨stamp, time, List.mem_cons_of_mem _ hmem, hp⟩

/-- **A sheet whose files all have the noted times is current.** -/
theorem Made.answer_eq {d₀ : Disk} {sheet : Sheet} (h : Made lib d₀ order sheet)
    (hlib : lib.Rooted) (hd : d₀.Earlier d)
    (hnoted : ∀ noted ∈ sheet.files.zip sheet.modTimes,
      ∃ time, lib.modTime d noted.1 = .ok time ∧ Sheets.nanoseconds time = noted.2) :
    order.answer lib d = .ok sheet.css := by
  have hgives := order.compiler.gives_of_compileAnew lib d₀ order.path
  have hagree : ∀ p ∈ sheet.files, lib.treeAt order.compiler.propertySyntax d₀ p =
      lib.treeAt order.compiler.propertySyntax d p := by
    intro p hp
    obtain ⟨stamp, time₀, hmem, htime₀, hstamp₀⟩ := h.stamped.exists_stamp p hp
    obtain ⟨time, htime, hstamp⟩ := hnoted _ hmem
    have hfile : d₀.isFile (lib.toDisk p) = true := by
      rw [h.compiled] at hgives
      exact hlib.isFile_toDisk (hgives p hp)
    obtain ⟨f₀, hlook₀⟩ := Disk.look_of_isFile hfile
    obtain ⟨f, hlook⟩ := Disk.look_of_isFile ((hd.paths.isFile _).symm.trans hfile)
    rw [Library.modTime_eq_ok, Disk.modTime_of_look hlook₀] at htime₀
    rw [Library.modTime_eq_ok, Disk.modTime_of_look hlook] at htime
    cases htime₀
    cases htime
    have htext := hd.dated _ f₀ f hlook₀ hlook (hstamp₀.trans hstamp.symm)
    refine Library.treeAt_congr ?_
    rw [Disk.read_of_look hlook₀, Disk.read_of_look hlook, htext]
  rw [Order.answer, Compiler.compileAnew_congr hd.paths (by rw [h.compiled]; exact hagree),
    h.compiled]
  rfl

/-- What a compilation lands with is what the disk gives. -/
theorem Doing.answer_eq {draft : Draft} {result : Except Fault (Nat × Sheet)}
    (h : Doing lib seen d order draft (.land result)) :
    result.map (fun entry => entry.2.css) = order.answer lib d := by
  cases h with
  | land ends result_eq =>
    rw [Order.answer, ends]
    exact result_eq

/-- A call that another one can wait for. -/
inductive Leads (lib : Library) (d : Disk) (order : Order) : Stage → Prop
  | compiling {draft : Draft} {phase : Phase} : Leads lib d order (.compiling order draft phase)
  | ended {result : Except Fault (Nat × Sheet)}
    (answer : result.map (fun entry => entry.2.css) = order.answer lib d) :
    Leads lib d order (.ended result)

/-- A call goes on to lead to the same answer. -/
theorem Moves.leads (hmoves : Moves o lib seen d calls name style stage stage')
    (hright : stage.Right o lib seen d name style) (h : Leads lib d order stage) :
    Leads lib d order stage' := by
  cases hmoves with
  | works =>
    cases h
    exact .compiling
  | lands =>
    cases h
    cases hright with | compiling make doing => exact .ended doing.answer_eq
  | rests => exact h
  | _ => cases h

/-- A call that has started after the last write serves what the files are now. -/
inductive Stage.Served (o : SheetOptions) (lib : Library) (seen : List Disk) (d : Disk)
    (calls : List Call) (name style : Text) : Stage → Prop
  | called : Served o lib seen d calls name style .called
  | checking {order : Order} {entry : Nat × Sheet} {done rest : List (Text × Int)} {d₀ : Disk}
    (mem : d₀ ∈ seen) (made : Made lib d₀ order entry.2)
    (zip_eq : entry.2.files.zip entry.2.modTimes = done ++ rest)
    (fresh : ∀ noted ∈ done, ∃ time, lib.modTime d noted.1 = .ok time ∧
      Sheets.nanoseconds time = noted.2) :
    Served o lib seen d calls name style (.checking order entry rest)
  | missed {order : Order} : Served o lib seen d calls name style (.missed order)
  | waiting {order : Order} {j : Nat} {leader : Call} (mem : calls[j]? = some leader)
    (leads : Leads lib d order leader.stage) :
    Served o lib seen d calls name style (.waiting order j)
  | compiling {order : Order} {draft : Draft} {phase : Phase} :
    Served o lib seen d calls name style (.compiling order draft phase)
  | ended {result : Except Fault (Nat × Sheet)}
    (answer : result.map (fun entry => entry.2.css) =
      Order.make o name style >>= fun order => order.answer lib d) :
    Served o lib seen d calls name style (.ended result)

/-- The call that others wait for leads to the answer of their order. -/
theorem leads_of_leader? {j : Nat} (horder : order.IsOf o)
    (hcalls : ∀ call ∈ calls, call.stage.Right o lib seen d call.name call.style)
    (h : leader? calls order.key = some j) :
    ∃ leader, calls[j]? = some leader ∧ Leads lib d order leader.stage := by
  obtain ⟨hj, hcompiles, -⟩ := List.findIdx?_eq_some_iff_getElem.mp h
  refine ⟨calls[j], List.getElem?_eq_getElem hj, ?_⟩
  have hright := hcalls calls[j] (List.getElem_mem hj)
  unfold Call.compiles at hcompiles
  cases hstage : calls[j].stage with
  | compiling order' draft phase =>
    rw [hstage] at hcompiles hright
    cases hright with
    | compiling make doing =>
      rw [Order.eq_of_key ⟨_, _, make⟩ horder (of_decide_eq_true hcompiles)]
      exact .compiling
  | _ =>
    rw [hstage] at hcompiles
    cases hcompiles

/-- A move keeps a call served: it leads to the right answer, or waits for a call that does. -/
theorem Moves.served (hlib : lib.Rooted) (hseen : ∀ d₀ ∈ seen, d₀.Earlier d)
    (hcalls : ∀ call ∈ calls, call.stage.Right o lib seen d call.name call.style)
    (hmoves : Moves o lib seen d calls name style stage stage')
    (hright : stage.Right o lib seen d name style)
    (h : stage.Served o lib seen d calls name style) :
    stage'.Served o lib seen d calls name style := by
  cases hmoves with
  | refused make =>
    refine .ended ?_
    rw [make]
    rfl
  | misses => exact .missed
  | checks make mem made =>
    exact .checking mem made (List.nil_append _).symm (List.forall_mem_nil _)
  | holds =>
    cases hright with | checking make =>
      cases h with | checking mem made zip_eq fresh =>
        rw [List.append_nil] at zip_eq
        refine .ended ?_
        rw [make]
        exact (made.answer_eq hlib (hseen _ mem) (zip_eq ▸ fresh)).symm
  | current modTime stamp_eq =>
    cases h with | checking mem made zip_eq fresh =>
      refine .checking mem made (zip_eq.trans (List.append_cons ..)) ?_
      exact List.forall_mem_append.mpr
        ⟨fresh, List.forall_mem_singleton.mpr ⟨_, modTime, stamp_eq⟩⟩
  | stale => exact .missed
  | joins leader =>
    -- the leader compiles now, after the last write, whenever it has been called
    cases hright with | missed make =>
      obtain ⟨call, hcall, hleads⟩ := leads_of_leader? ⟨name, style, make⟩ hcalls leader
      exact .waiting hcall hleads
  | starts => exact .compiling
  | gets mem ended =>
    cases hright with | waiting make =>
      cases h with | waiting mem' leads =>
        cases mem.symm.trans mem'
        rw [ended] at leads
        cases leads with | ended answer =>
          refine .ended ?_
          rw [make]
          exact answer
  | waits => exact h
  | works => exact .compiling
  | lands =>
    cases hright with | compiling make doing =>
      refine .ended ?_
      rw [make]
      exact doing.answer_eq
  | rests => exact h

/-- A call stays served when the others move, as those that lead go on to. -/
theorem Stage.Served.of_calls {calls' : List Call}
    (hcalls : ∀ (j : Nat) (leader : Call) (order : Order), calls[j]? = some leader →
      Leads lib d order leader.stage →
      ∃ leader' : Call, calls'[j]? = some leader' ∧ Leads lib d order leader'.stage)
    (h : stage.Served o lib seen d calls name style) :
    stage.Served o lib seen d calls' name style := by
  cases h with
  | called => exact .called
  | checking mem made zip_eq fresh => exact .checking mem made zip_eq fresh
  | missed => exact .missed
  | waiting mem leads =>
    obtain ⟨leader', hmem, hleads⟩ := hcalls _ _ _ mem leads
    exact .waiting hmem hleads
  | compiling => exact .compiling
  | ended answer => exact .ended answer

end Moves

/-! ## Events -/

def Event.isWrite : Event → Bool
  | .write _ _ => true
  | .call _ _ | .turn _ _ => false

/-- The files that a call has loaded for a compilation under way. -/
def Call.loaded (call : Call) : List Text :=
  match call.stage with
  | .compiling _ draft _ => draft.shelf.files
  | _ => []

namespace System
variable {o : SheetOptions} {lib : Library} {seen : List Disk} {s : System} {i k : Nat}
  {call : Call} {event : Event}

/-- Writes replace files. They give them times that they did not have on the disks seen so far, and
respect the compilations under way. -/
def Permits (seen : List Disk) (s : System) : Event → Prop
  | .write path file => s.disk.isFile path = true ∧
    (∀ d ∈ seen, (d.modTime path).toOption.map Sheets.nanoseconds ≠
      some (Sheets.nanoseconds file.mtime)) ∧
    ∀ call ∈ s.calls, ∀ p ∈ call.loaded, s.sheets.library.toDisk p ≠ path
  | .call _ _ | .turn _ _ => True

/-- All writes are permitted. -/
def Orderly : List Disk → System → List Event → Prop
  | _, _, [] => True
  | seen, s, event :: events =>
    s.Permits seen event ∧ Orderly ((s.step event).disk :: seen) (s.step event) events

instance (seen : List Disk) (s : System) (event : Event) : Decidable (s.Permits seen event) :=
  match event with
  | .write _ _ => inferInstanceAs (Decidable (_ ∧ _ ∧ _))
  | .call _ _ | .turn _ _ => inferInstanceAs (Decidable True)

instance decidableOrderly : ∀ seen s events, Decidable (Orderly seen s events)
  | _, _, [] => inferInstanceAs (Decidable True)
  | seen, s, event :: events =>
    have := decidableOrderly ((s.step event).disk :: seen) (s.step event) events
    inferInstanceAs (Decidable (s.Permits seen event ∧ _))

/-- A system is right about the disk. -/
structure Right (o : SheetOptions) (lib : Library) (seen : List Disk) (s : System) : Prop where
  disk : s.disk ∈ seen
  earlier : ∀ d ∈ seen, d.Earlier s.disk
  clear : s.disk.IsClear
  sheets : s.sheets.Right o lib seen s.disk
  calls : ∀ call ∈ s.calls, call.stage.Right o lib seen s.disk call.name call.style

theorem Right.keeps (h : s.Right o lib seen) : ∀ d₀ ∈ seen, Disk.Keeps d₀ s.disk :=
  fun d₀ hd₀ => (h.earlier d₀ hd₀).keeps

theorem disk_step (h : event.isWrite = false) (s : System) : (s.step event).disk = s.disk := by
  cases event with
  | call name style => rfl
  | turn i now =>
    cases hcall : s.calls[i]? with
    | none => rw [step, hcall]
    | some call => rw [step_turn hcall, put]
  | write path file => cases h

/-- The turn of a call is one of its moves. -/
theorem Right.turn_step (hlib : lib.Rooted) (h : s.Right o lib seen)
    (hcall : s.calls[i]? = some call) (now : Text) :
    ∃ stage, (s.step (.turn i now)).calls[i]? = some { call with stage } ∧
      Moves o lib seen s.disk s.calls call.name call.style call.stage stage := by
  have hi := (List.getElem?_eq_some_iff.mp hcall).1
  obtain ⟨hmoves, -⟩ := @turn_moves o lib seen s.disk call.name call.style now s.calls call.stage
    s.sheets h.sheets hlib h.clear h.disk h.keeps (h.calls call (List.mem_of_getElem? hcall))
  rw [step_turn hcall, put]
  exact ⟨_, List.getElem?_set_self hi, hmoves⟩

theorem getElem?_step_of_ne (h : ∀ now, event ≠ .turn i now) (hcall : s.calls[i]? = some call) :
    (s.step event).calls[i]? = some call := by
  have hi := (List.getElem?_eq_some_iff.mp hcall).1
  cases event with
  | write path file => exact hcall
  | call name style => rw [step, List.getElem?_append_left hi, hcall]
  | turn j now =>
    cases hturn : s.calls[j]? with
    | none =>
      rw [step, hturn]
      exact hcall
    | some call' =>
      have hj : j ≠ i := by
        rintro rfl
        exact h now rfl
      rw [step_turn hturn, put, List.getElem?_set_ne hj, hcall]

/-- What an event does to a call: nothing, or the call moves. -/
theorem Right.call_step (hlib : lib.Rooted) (h : s.Right o lib seen) (event : Event)
    (hcall : s.calls[i]? = some call) :
    ∃ stage, (s.step event).calls[i]? = some { call with stage } ∧ (stage = call.stage ∨
      Moves o lib seen s.disk s.calls call.name call.style call.stage stage) := by
  by_cases hturn : ∃ now, event = .turn i now
  · obtain ⟨now, rfl⟩ := hturn
    obtain ⟨stage, hstage, hmoves⟩ := h.turn_step hlib hcall now
    exact ⟨stage, hstage, .inr hmoves⟩
  · exact ⟨call.stage, getElem?_step_of_ne (fun now h => hturn ⟨now, h⟩) hcall, .inl rfl⟩

/-- A call was there before, or has just been made. -/
theorem call_of_step (h : (s.step event).calls[i]? = some call) :
    (∃ before, s.calls[i]? = some before) ∨ call.stage = .called := by
  by_cases hi : i < s.calls.length
  · exact .inl ⟨_, List.getElem?_eq_getElem hi⟩
  · have hnone : s.calls[i]? = none := List.getElem?_eq_none (Nat.le_of_not_lt hi)
    refine .inr ?_
    cases event with
    | write path file => cases hnone.symm.trans h
    | call name style =>
      rw [step, List.getElem?_append_right (Nat.le_of_not_lt hi), List.getElem?_singleton] at h
      split at h
      · cases h
        rfl
      · cases h
    | turn j now =>
      cases hturn : s.calls[j]? with
      | none =>
        rw [step, hturn] at h
        cases hnone.symm.trans h
      | some call' =>
        have hlength : (s.step (.turn j now)).calls.length = s.calls.length := by
          rw [step_turn hturn, put, List.length_set]
        have := (List.getElem?_eq_some_iff.mp h).1
        omega

/-! ### What an event preserves -/

theorem Right.step_of_not_isWrite (hlib : lib.Rooted) (h : s.Right o lib seen)
    (hevent : event.isWrite = false) : (s.step event).Right o lib seen := by
  have hdisk := disk_step hevent s
  refine ⟨hdisk ▸ h.disk, hdisk ▸ h.earlier, hdisk ▸ h.clear, ?_, ?_⟩
  · rw [hdisk]
    cases event with
    | write path file => cases hevent
    | call name style => exact h.sheets
    | turn i now =>
      cases hcall : s.calls[i]? with
      | none =>
        rw [step, hcall]
        exact h.sheets
      | some call =>
        rw [step_turn hcall]
        exact (turn_moves h.sheets hlib h.clear h.disk h.keeps
          (h.calls call (List.mem_of_getElem? hcall))).2
  · intro call hmem
    rw [hdisk]
    obtain ⟨i, hcall⟩ := List.getElem?_of_mem hmem
    rcases call_of_step hcall with ⟨before, hbefore⟩ | hcalled
    · have hright := h.calls before (List.mem_of_getElem? hbefore)
      obtain ⟨stage, hstage, hmove⟩ := h.call_step hlib event hbefore
      cases hstage.symm.trans hcall
      rcases hmove with rfl | hmoves
      · exact hright
      · exact hmoves.right hlib h.disk hright
    · rw [hcalled]
      exact .called

end System

/-- A call stays right when files are written that it has not loaded. -/
theorem Stage.Right.congr {o : SheetOptions} {lib : Library} {seen seen' : List Disk} {d d' : Disk}
    {call : Call} (h : call.stage.Right o lib seen d call.name call.style) (hd : d.SamePaths d')
    (hseen : seen ⊆ seen')
    (hsame : ∀ p ∈ call.loaded, d.look (lib.toDisk p) = d'.look (lib.toDisk p)) :
    call.stage.Right o lib seen' d' call.name call.style := by
  obtain ⟨name, style, stage⟩ := call
  cases h with
  | called => exact .called
  | checking make => exact .checking make
  | missed make => exact .missed make
  | waiting make => exact .waiting make
  | compiling make doing => exact .compiling make (doing.congr hd hsame hseen)
  | ended => exact .ended

namespace System
variable {o : SheetOptions} {lib : Library} {seen : List Disk} {s : System} {i k : Nat}
  {call : Call} {event : Event}

theorem Right.cons_seen (h : s.Right o lib seen) : s.Right o lib (s.disk :: seen) where
  disk := List.mem_cons_self
  earlier := List.forall_mem_cons.mpr ⟨.refl _, h.earlier⟩
  clear := h.clear
  sheets := h.sheets.congr (Disk.Earlier.refl _).paths (List.subset_cons_self _ _)
  calls call hcall := (h.calls call hcall).congr (Disk.Earlier.refl _).paths
    (List.subset_cons_self _ _) fun _ _ => rfl

/-- **A permitted write spoils nothing.** -/
theorem Right.step_write {path : Text} {file : File} (h : s.Right o lib seen)
    (hpermits : s.Permits seen (.write path file)) :
    (s.step (.write path file)).Right o lib ((s.step (.write path file)).disk :: seen) := by
  obtain ⟨hpath, htime, hloaded⟩ := hpermits
  have hpaths := Disk.samePaths_write hpath file
  have hearlier : ∀ d ∈ seen, d.Earlier (s.disk.write path file) := by
    -- of the old texts only those of this path could be taken for the new one
    refine fun d hd => (h.earlier d hd).write hpath fun f hlook hsame => htime d hd ?_
    rw [Disk.modTime_of_look hlook, ← hsame]
    rfl
  refine ⟨List.mem_cons_self, List.forall_mem_cons.mpr ⟨.refl _, hearlier⟩, ?_,
    h.sheets.congr hpaths (List.subset_cons_self _ _), fun call hcall => ?_⟩
  · intro q hq
    exact h.clear q ((hpaths.isFile q).trans hq)
  · refine (h.calls call hcall).congr hpaths (List.subset_cons_self _ _) fun p hp => ?_
    -- the path is none of those that the call has loaded, so that it looks as before there
    obtain ⟨trees, resolved, choices, hlibrary⟩ := h.sheets.memory.kin
    have hother := hloaded call hcall p hp
    rw [hlibrary] at hother
    exact (Disk.look_write_of_ne hpath hother).symm

/-- **A step keeps the system right**, with the disk after it among those that have been seen. -/
theorem Right.step (hlib : lib.Rooted) (h : s.Right o lib seen) (hpermits : s.Permits seen event) :
    (s.step event).Right o lib ((s.step event).disk :: seen) := by
  cases event with
  | write path file => exact h.step_write hpermits
  | call name style => exact (h.step_of_not_isWrite hlib rfl).cons_seen
  | turn i now => exact (h.step_of_not_isWrite hlib rfl).cons_seen

/-- **An orderly run spoils nothing.** -/
theorem Right.run (hlib : lib.Rooted) {events : List Event} (h : s.Right o lib seen)
    (horderly : Orderly seen s events) : ∃ seen', (s.run events).Right o lib seen' := by
  induction events generalizing s seen with
  | nil => exact ⟨seen, h⟩
  | cons event events ih =>
    obtain ⟨hpermits, hrest⟩ := horderly
    exact ih (h.step hlib hpermits) hrest

/-- All calls from a certain one on serve what the files are now. -/
def Serves (o : SheetOptions) (lib : Library) (seen : List Disk) (k : Nat) (s : System) : Prop :=
  ∀ i call, k ≤ i → s.calls[i]? = some call →
    call.stage.Served o lib seen s.disk s.calls call.name call.style

/-- No call that is still to come has been seen, so every one of them is served. -/
theorem serves_length (s : System) : s.Serves o lib seen s.calls.length := by
  intro i call hi hcall
  rw [List.getElem?_eq_none hi] at hcall
  cases hcall

/-- As long as nothing is written, the calls from some point on stay served. -/
theorem Serves.step (hlib : lib.Rooted) (h : s.Right o lib seen) (hserves : s.Serves o lib seen k)
    (hevent : event.isWrite = false) : (s.step event).Serves o lib seen k := by
  have hleaders : ∀ (j : Nat) (leader : Call) (order : Order), s.calls[j]? = some leader →
      Leads lib s.disk order leader.stage →
      ∃ leader', (s.step event).calls[j]? = some leader' ∧
        Leads lib s.disk order leader'.stage := by
    intro j leader order hleader hleads
    obtain ⟨stage, hstage, hmove⟩ := h.call_step hlib event hleader
    refine ⟨_, hstage, ?_⟩
    rcases hmove with rfl | hmoves
    · exact hleads
    · exact hmoves.leads (h.calls leader (List.mem_of_getElem? hleader)) hleads
  -- the call itself moves among the old calls; after that its leader may have moved
  intro i call hi hcall
  rw [disk_step hevent]
  rcases call_of_step hcall with ⟨before, hbefore⟩ | hcalled
  · have hright := h.calls before (List.mem_of_getElem? hbefore)
    have hserved := hserves i before hi hbefore
    obtain ⟨stage, hstage, hmove⟩ := h.call_step hlib event hbefore
    cases hstage.symm.trans hcall
    rcases hmove with rfl | hmoves
    · exact hserved.of_calls hleaders
    · exact (hmoves.served hlib h.earlier h.calls hright hserved).of_calls hleaders
  · rw [hcalled]
    exact .called

end System

end Service

end IndentedSass
