import ChainScript.Host
import ChainScript.Proofs.MirrorCall

/-!
# Runners on copies

A runner does on a copy of its machine what it does on the machine itself: setting up, binding
values, attaching handlers, running programs, and reporting how they end.
-/

namespace ChainScript

variable {ρ : Renaming}

instance : Renamed Config :=
  ⟨fun ρ config => ⟨rename ρ config.strict, rename ρ config.debug, rename ρ config.builtins⟩⟩

/-! ## Setting up -/

namespace Registry

/-- The handlers of an extension hold no object. -/
theorem rename_of_builtin? {name : String} {c : Class} {handlers : HandlerSet}
    (h : builtin? name = some (c, handlers)) : rename ρ handlers = handlers := by
  unfold builtin? at h
  split at h <;> cases h <;> rfl

/-- Extensions are installed in the renamed registry as in the registry. -/
theorem install_rename (r : Registry) (names : List Value) :
    install (rename ρ r) (names.map (rename ρ)) = rename ρ (r.install names) := by
  induction names generalizing r with
  | nil => rfl
  | cons name rest ih =>
    cases name with
    | str s =>
      simp only [List.map_cons, rename_str, install]
      cases hb : builtin? s with
      | none => rfl
      | some extension =>
        obtain ⟨c, handlers⟩ := extension
        have hattach := attach_rename (ρ := ρ) r c handlers
        rw [rename_of_builtin? hb] at hattach
        dsimp only
        rw [hattach]
        exact ih (r.attach c handlers)
    | _ => rfl

end Registry

/-- No value of the library is an object that a renaming moves. -/
theorem values_rename (ρ : Renaming) :
    Library.values = Library.values.map fun (name, v) => (name, rename ρ v) := by
  simp [Library.values]

/-- The functions of a library are methods of it, and those of its copy are methods of the copy. -/
theorem mirror_libraryMethods (library : Value) :
    Mirror ρ (List.map (rename ρ))
      (LibraryFunction.all.mapM fun f => do
        return (f.name, ← Run.alloc (.method (.library (library.objectId?.getD 0) f))))
      (LibraryFunction.all.mapM fun f => do
        return (f.name, ← Run.alloc (.method (.library ((rename ρ library).objectId?.getD 0) f)))) := by
  have hplace : (rename ρ library).objectId?.getD 0 = ρ (library.objectId?.getD 0) := by
    have hzero : ρ 0 = 0 := ρ.apply_symbol .get
    cases library with
    | object id => rfl
    | _ => exact hzero.symm
  rw [hplace]
  generalize library.objectId?.getD 0 = receiver
  have hfunctions : Mirror ρ (List.map (rename ρ))
      (LibraryFunction.all.mapM fun f => do
        return (f.name, ← Run.alloc (.method (.library receiver f))))
      ((LibraryFunction.all.map id).mapM fun f => do
        return (f.name, ← Run.alloc (.method (.library (ρ receiver) f)))) := by
    refine .mapM (q := rename ρ) (s := id) (fun f => ?_) LibraryFunction.all
    exact Mirror.bind (Mirror.alloc (.method (.library receiver f))) fun v => .pure (f.name, v) rfl
  rwa [List.map_id] at hfunctions

/-- The bindings of a new global environment are the copies of those of another. -/
theorem follows_bindings : Follows ρ Library.bindings Library.bindings := by
  refine .get fun m h' _ => ?_
  refine (Mirror.alloc (.evaluator m.globals)).bind fun evaluator => ?_
  refine (Mirror.alloc (.library (some evaluator))).bind fun library => ?_
  refine (mirror_libraryMethods library).bind fun functions => .pure _ ?_
  have hslots := namedSlots_rename (ρ := ρ) (Library.values ++ functions) .empty
  rw [List.map_append, ← values_rename, Table.rename_empty] at hslots
  exact hslots

/-- A runner with copied settings starts as a copy. -/
theorem mirror_start (config : Config) :
    Mirror ρ id (Runner.start config) (Runner.start (rename ρ config)) := by
  have hinstall := Registry.install_rename (ρ := ρ) .empty config.builtins
  rw [Table.rename_empty] at hinstall
  refine follows_bindings.bind fun bindings => .heap fun h h' hh => ?_
  have hstrict := hh.isTruthy config.strict
  have hdebug := hh.isTruthy config.debug
  refine Mirror.bind (.modify (fun _ => rfl) fun m h'' => ?_) fun _ => .get fun m _ _ => ?_
  · show Machine.mk .. = Machine.mk ..
    congr 1
    · exact congrArg Prod.fst hinstall
    · exact congrArg some hdebug
  · exact .put (.environment bindings none)

/-- Binding the copy of a value mirrors binding the value. -/
theorem mirror_bind (name : String) (v : Value) :
    Mirror ρ id (Runner.bind name v) (Runner.bind name (rename ρ v)) :=
  .get fun m _ _ => mirror_assign (.object m.globals) (.str name) v

/-! ## Running programs -/

/-- Running the copy of a tree gives the copy of its value. -/
theorem follows_runnerRun (tree : Value) :
    Follows ρ (Runner.run tree) (Runner.run (rename ρ tree)) :=
  (follows_programOf tree).bind fun program =>
    .get fun m _ _ =>
      follows_evalRun (callerFollows_guarded ρ .none callDepth) (.object m.globals) program

/-- Awaiting a copy gives the copy of what is awaited. -/
theorem follows_await (v : Value) : Follows ρ (Runner.await v) (Runner.await (rename ρ v)) := by
  refine .objectOf? fun o o' hc => ?_
  rcases hc with ⟨hc⟩ | _
  · cases hc with
    | awaitable => exact callerFollows_guarded ρ .none callDepth (.builtin .await) [v]
    | _ => exact .pure v rfl
  · exact .pure v rfl

/-- Running the copy of a tree and awaiting its value goes as it does for the tree. -/
theorem follows_attempt (tree : Value) :
    Follows ρ (Runner.attempt tree) (Runner.attempt (rename ρ tree)) :=
  Mirror.bind (.modify (fun _ => rfl) fun _ _ => rfl) fun _ =>
    (follows_runnerRun tree).bind fun v => follows_await v

/-! ## Reports -/

/-- The copy of a fault is told in the same words. -/
theorem mirror_faultText (fault : Fault) :
    Mirror ρ id (Runner.faultText fault) (Runner.faultText (rename ρ fault)) := by
  refine .get fun m h' hh => ?_
  rw [Machine.moved_heap, hh.message]
  refine (Mirror.ofPrinted (r := id) (id_map _).symm).bind fun text => .pure _ ?_
  rw [Fault.kind_rename]
  rfl

/-- The report of the copy of a fault is the copy of the report. -/
theorem follows_report (fault : Fault) :
    Follows ρ (Runner.report fault) (Runner.report (rename ρ fault)) := by
  refine .get fun m h' hh => ?_
  refine (mirror_faultText fault).bind fun text => ?_
  rw [Machine.moved_current, Machine.moved_heap, Fault.kind_rename]
  cases m.current with
  | none => exact .pure _ rfl
  | some node =>
    have hplace : Runner.placeText h' (rename ρ node) = id <$> Runner.placeText m.heap node := by
      rw [id_map, hh.placeText]
    simp only [rename_option, Option.map_some, Node.loc_rename]
    exact (Mirror.ofPrinted hplace).bind fun _ => .pure _ rfl

/-- The report on the copy of a tree is the copy of the report on the tree. -/
theorem follows_execute (tree : Value) :
    Follows ρ (Runner.execute tree) (Runner.execute (rename ρ tree)) := by
  refine .tryCatch ((follows_attempt tree).bind fun v => .pure _ rfl) fun stop => ?_
  cases stop with
  | outside detour => exact .stop rfl
  | fault fault =>
    simp only [rename_fault, Fault.kind_rename]
    split
    · exact .stop rfl
    · exact follows_report fault

end ChainScript
