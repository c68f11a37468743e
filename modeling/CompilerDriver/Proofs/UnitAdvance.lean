import CompilerDriver.Proofs.Drawing

/-!
# Advancing the units of a pipeline

One action is built for one unit, or for the units of a pipeline together. The
relation `Advances` says what becomes of a list of units that are bound one by
one: each reads what it was to read next, moves on to the output of its action,
and records the place of the action in the list of the stage.
-/
namespace CompilerDriver

namespace ActionKind

variable {p : Pipeline} {s : Stage} {format : Option Format} {kind : ActionKind}

theorem arity_of_dispatch (h : dispatch p s format = some kind) :
    kind.arity = if s = .link then .merge else .single := by
  rcases format with _ | _ | _ | _ | _
  · cases h
  · cases p <;> cases s <;> first | cases h; done | (cases h; rfl)
  · cases p <;> cases s <;> first | cases h; done | (cases h; rfl)
  · cases p <;> cases s <;> (cases h; rfl)
  · cases p <;> cases s <;> (cases h; rfl)

/-- The passes, which need the analysis database. -/
def isPass : ActionKind → Bool
  | deviceAnalyze | deviceTransform | hostTransform => true
  | _ => false

theorem stage_of_isPass (h : dispatch p s format = some kind) (hk : kind.isPass = true) :
    s = .analyze ∨ s = .transform := by
  rcases format with _ | _ | _ | _ | _
  · cases h
  · cases p <;> cases s <;> first | cases h; done | (cases h; cases hk)
  · cases p <;> cases s <;> first | cases h; done | (cases h; cases hk)
  · cases p <;> cases s <;> first | decide | (cases h; cases hk)
  · cases p <;> cases s <;> first | decide | (cases h; cases hk)

end ActionKind

theorem BuildSettings.exists_template (s : BuildSettings) (fs : FileSystem) {kind : ActionKind}
    (h : kind.isPass = true → s.config.database.isSome = true) :
    ∃ t, s.template fs kind = .ok t := by
  have hpass (hk : kind.isPass = true) (plugin : String) : ∃ t, s.pass kind plugin = .ok t := by
    obtain ⟨database, hd⟩ := Option.isSome_iff_exists.mp (h hk)
    exact ⟨_, by rw [pass, hd]⟩
  cases kind
  case deviceAnalyze => exact hpass rfl "bsp_analysis"
  case deviceTransform => exact hpass rfl "bsp_transform"
  case hostTransform => exact hpass rfl "host_transform"
  all_goals exact ⟨_, rfl⟩

/-- The action has its template from the settings and has not run. -/
structure Action.Built (settings : BuildSettings) (a : Action) : Prop where
  template : ∃ fs, settings.template fs a.kind = .ok a.template
  result : a.result = .notRun
  launchError : a.launchError = none

namespace Action

variable {settings : BuildSettings} {fs : FileSystem} {kind : ActionKind} {t : Template}

theorem build_single {u : CompilationUnit} {input output : Path} (ha : kind.arity = .single)
    (ht : settings.template fs kind = .ok t) (hi : u.currentInput = .ok input)
    (ho : u.currentOutput = .ok output) :
    build settings fs kind [u] =
      .ok { kind := kind, template := t, binding := ⟨output, [input]⟩ } := by
  have hc : kind.checkArity [u].length = .ok () := by
    rw [ActionKind.checkArity, ha]
    rfl
  have hb : bind kind u [] = .ok ⟨output, [input]⟩ := by
    cases kind <;> first
      | exact absurd ha (by decide)
      | simp only [Action.bind, ActionKind.arity, hi, ho, Bind.bind, Except.bind, pure, Except.pure]
  simp only [build, hc, ht, hb, Bind.bind, Except.bind, pure, Except.pure]

theorem build_merge {target : CompilationUnit} {others : List CompilationUnit}
    {inputs : List Path} {output : Path} (ha : kind.arity = .merge) (hn : others ≠ [])
    (ht : settings.template fs kind = .ok t)
    (hi : others.mapM CompilationUnit.currentOutput = .ok inputs)
    (ho : target.currentOutput = .ok output) :
    build settings fs kind (target :: others) =
      .ok { kind := kind, template := t, binding := ⟨output, inputs⟩ } := by
  have hc : kind.checkArity (target :: others).length = .ok () := by
    have hl : 2 ≤ (target :: others).length := by
      rw [List.length_cons]
      exact Nat.succ_le_succ (List.length_pos_iff.mpr hn)
    rw [ActionKind.checkArity, ha]
    exact if_pos hl
  have hb : bind kind target others = .ok ⟨output, inputs⟩ := by
    cases kind <;> first
      | exact absurd ha (by decide)
      | simp only [Action.bind, ActionKind.arity, hi, ho, Bind.bind, Except.bind, pure, Except.pure]
  simp only [build, hc, ht, hb, Bind.bind, Except.bind, pure, Except.pure]

end Action

namespace StageActions

/-- Adds actions at the end of a stage. -/
def extend (t : StageActions) (s : Stage) (actions : List Action) : StageActions :=
  t.setStage s (t.stage s ++ actions)

@[simp] theorem stage_extend_self (t : StageActions) (s : Stage) (actions : List Action) :
    (t.extend s actions).stage s = t.stage s ++ actions := by
  simp [extend]

theorem stage_extend_of_ne (t : StageActions) {s r : Stage} (actions : List Action) (h : r ≠ s) :
    (t.extend s actions).stage r = t.stage r := stage_setStage_of_ne _ _ h

theorem ext_stage {t t' : StageActions} (h : ∀ s, t.stage s = t'.stage s) : t = t' := by
  cases t
  cases t'
  exact congrArg StageActions.mk (PerStage.ext_get h)

@[simp] theorem extend_nil (t : StageActions) (s : Stage) : t.extend s [] = t := by
  refine ext_stage fun r => ?_
  by_cases hr : r = s
  · subst hr; simp
  · exact stage_extend_of_ne t [] hr

theorem extend_extend (t : StageActions) (s : Stage) (first second : List Action) :
    (t.extend s first).extend s second = t.extend s (first ++ second) := by
  refine ext_stage fun r => ?_
  by_cases hr : r = s
  · subst hr; simp
  · rw [stage_extend_of_ne _ _ hr, stage_extend_of_ne _ _ hr, stage_extend_of_ne _ _ hr]

end StageActions

namespace CompilationUnit

/-- What never changes about a unit: its source and its name. -/
def identity (u : CompilationUnit) : Option Path × String := (u.source, u.name)

/-- The unit after an action that writes its next output. -/
def advance (u : CompilationUnit) (a : Action) (id : ActionId) : CompilationUnit :=
  (u.append a.binding.output).recordAction id

variable (u : CompilationUnit) (a : Action) (id : ActionId)

@[simp] theorem actions_advance : (u.advance a id).actions = u.actions ++ [id] := rfl

/-- The action was made for the unit at a stage: the form of what it reads decides its kind. -/
structure Handled (settings : BuildSettings) (p : Pipeline) (s : Stage) (u : CompilationUnit)
    (a : Action) : Prop where
  built : a.Built settings
  kind : ActionKind.dispatch p s u.nextFormat = some a.kind
  inputs : a.binding.inputs.map some = [u.nextInput]

theorem Handled.inputs_eq {settings : BuildSettings} {p : Pipeline} {s : Stage}
    {u : CompilationUnit} {a : Action} {q : Path} (h : u.Handled settings p s a)
    (hq : u.nextInput = some q) : a.binding.inputs = [q] := by
  have hin := h.inputs
  rwa [hq, ← List.map_singleton (f := some), List.map_inj_right fun _ _ => Option.some.inj] at hin

end CompilationUnit

/-- Every unit of a list advances by an action of its own. The actions take the places of the
stage from `n` on. -/
inductive Advances (settings : BuildSettings) (p : Pipeline) (s : Stage) :
    Nat → List CompilationUnit → List Action → List CompilationUnit → Prop where
  | nil (n : Nat) : Advances settings p s n [] [] []
  | cons {n : Nat} {u : CompilationUnit} {a : Action} {units units' : List CompilationUnit}
      {actions : List Action} : u.Handled settings p s a →
      Advances settings p s (n + 1) units actions units' →
      Advances settings p s n (u :: units) (a :: actions) (u.advance a ⟨s, n⟩ :: units')

namespace Advances

open CompilationUnit

variable {settings : BuildSettings} {p : Pipeline} {s : Stage} {n : Nat}
  {units units' : List CompilationUnit} {actions : List Action}

theorem map_identity (h : Advances settings p s n units actions units') :
    units'.map identity = units.map identity := by
  induction h with
  | nil => rfl
  | cons _ _ ih => rw [List.map_cons, List.map_cons, ih]; rfl

/-- The latest output of each unit is what its action writes. -/
theorem map_current (h : Advances settings p s n units actions units') :
    units'.map (·.current) = actions.map fun a => some a.binding.output := by
  induction h with
  | nil => rfl
  | cons _ _ ih => rw [List.map_cons, List.map_cons, ih]; rfl

/-- Each action reads the one path that its unit was to read. -/
theorem map_inputs (h : Advances settings p s n units actions units') {front : List Path}
    (hf : units.map (·.nextInput) = front.map some) :
    actions.map (·.binding.inputs) = front.map ([·]) := by
  induction h generalizing front with
  | nil =>
    rw [List.map_nil, eq_comm, List.map_eq_nil_iff] at hf
    subst hf
    rfl
  | cons ha _ ih =>
    cases front with
    | nil => cases hf
    | cons q front =>
      rw [List.map_cons, List.map_cons, List.cons.injEq] at hf
      rw [List.map_cons, List.map_cons, ih hf.2, ha.inputs_eq hf.1]

theorem built (h : Advances settings p s n units actions units') :
    ∀ a ∈ actions, a.Built settings := by
  induction h with
  | nil => simp
  | cons ha _ ih => exact List.forall_mem_cons.mpr ⟨ha.built, ih⟩

/-- The form of what an action reads decides its kind. -/
theorem kind (h : Advances settings p s n units actions units') :
    ∀ a ∈ actions, ∀ q ∈ a.binding.inputs,
      ActionKind.dispatch p s (Format.ofPath? q) = some a.kind := by
  induction h with
  | nil => simp
  | @cons _ u a _ _ _ ha _ ih =>
    refine List.forall_mem_cons.mpr ⟨fun q hq => ?_, ih⟩
    have hn : some q = u.nextInput := by
      have := List.mem_map_of_mem (f := some) hq
      rwa [ha.inputs, List.mem_singleton] at this
    rw [← ha.kind, CompilationUnit.nextFormat, ← hn]
    rfl

/-- What the units record besides is the places of the new actions. -/
theorem mem_actions_iff (h : Advances settings p s n units actions units') {id : ActionId} :
    id ∈ units'.flatMap (·.actions) ↔
      id ∈ units.flatMap (·.actions) ∨
        (id.stage = s ∧ n ≤ id.index ∧ id.index < n + actions.length) := by
  induction h with
  | nil =>
    simp only [List.flatMap_nil, List.not_mem_nil, List.length_nil, false_or, false_iff]
    omega
  | @cons n u a _ _ actions _ _ ih =>
    obtain ⟨stage, index⟩ := id
    simp only [List.flatMap_cons, List.mem_append, ih, CompilationUnit.actions_advance,
      List.mem_singleton, ActionId.mk.injEq, List.length_cons]
    constructor
    · rintro ((h | ⟨rfl, rfl⟩) | h | ⟨rfl, hl, hr⟩)
      · exact Or.inl (Or.inl h)
      · exact Or.inr ⟨rfl, Nat.le_refl _, by omega⟩
      · exact Or.inl (Or.inr h)
      · exact Or.inr ⟨rfl, by omega, by omega⟩
    · rintro ((h | h) | ⟨rfl, hl, hr⟩)
      · exact Or.inl (Or.inl h)
      · exact Or.inr (Or.inl h)
      · by_cases hi : index = n
        · exact Or.inl (Or.inr ⟨rfl, hi⟩)
        · exact Or.inr (Or.inr ⟨rfl, by omega, by omega⟩)

end Advances

namespace AssemblyContext

open AssemblyM CompilationUnit

variable {ctx : AssemblyContext} {p : Pipeline} {s : Stage} {final : Option Path}
  {extension : String} {w : Workspace}

/-- The temporaries that units ask for when they move on: none, if there is a final path. -/
def requested (final : Option Path) (extension : String) (names : List String) : List Request :=
  match final with
  | some _ => []
  | none => names.map (⟨·, extension⟩)

/-- The outputs of actions are the final path, or else the paths drawn for them. -/
def Assigned (final : Option Path) (paths : List Path) (actions : List Action) : Prop :=
  match final with
  | some path => paths = [] ∧ ∀ a ∈ actions, a.binding.output = path
  | none => actions.map (·.binding.output) = paths

theorem requested_nil (final : Option Path) (extension : String) :
    requested final extension [] = [] := by
  cases final <;> rfl

theorem requested_cons (final : Option Path) (extension name : String) (names : List String) :
    requested final extension (name :: names) =
      requested final extension [name] ++ requested final extension names := by
  cases final <;> rfl

theorem assigned_nil : Assigned final [] [] := by
  cases final
  · rfl
  · exact ⟨rfl, by simp⟩

theorem Assigned.cons {a : Action} {actions : List Action} {paths paths' : List Path}
    (h : Assigned final paths [a]) (h' : Assigned final paths' actions) :
    Assigned final (paths ++ paths') (a :: actions) := by
  cases final with
  | none =>
    change [a.binding.output] = paths at h
    change actions.map _ = paths' at h'
    rw [← h, ← h']
    rfl
  | some path => exact ⟨by rw [h.1, h'.1]; rfl, List.forall_mem_cons.mpr ⟨h.2 a (by simp), h'.2⟩⟩

theorem attachOutput_draws (u : CompilationUnit) :
    Draws (u.attachOutput final extension) (requested final extension [u.name]) w
      fun paths u' => ∃ o, u' = u.append o ∧
        ∀ a : Action, a.binding.output = o → Assigned final paths [a] := by
  cases final with
  | some path => exact draws_pure ⟨path, rfl, fun a ha => ⟨rfl, by simpa using ha⟩⟩
  | none =>
    rw [Draws, requested, List.map_singleton, Workspace.allocateAll_singleton,
      run_attachOutput_none, appendTemporary]
    rcases w.allocate u.name extension with ⟨e | path, w'⟩
    · rfl
    · exact ⟨u.append path, rfl, path, rfl, fun a ha => congrArg ([·]) ha⟩

theorem buildAction_draws {kind : ActionKind} {units : List CompilationUnit}
    {P : Action → Prop}
    (h : ∀ fs, ∃ a, Action.build ctx.settings fs kind units = .ok a ∧ P a) :
    Draws (ctx.buildAction kind units) [] w fun _ a => P a := by
  obtain ⟨a, ha, hq⟩ := h w.fs
  exact ⟨a, by rw [run_buildAction, ha], hq⟩

theorem kindFor_eq_ok {u : CompilationUnit} {format : Option Format} {kind : ActionKind}
    (h : ActionKind.dispatch p s format = some kind) : u.kindFor p s format = .ok kind := by
  rw [kindFor, h]

/-- A unit in an accepted form advances, unless its temporary is refused. -/
theorem assembleUnit_draws {u : CompilationUnit} {actions : StageActions} (hs : s ≠ .link)
    (hk : (ActionKind.dispatch p s u.nextFormat).isSome = true)
    (hd : s = .analyze ∨ s = .transform → ctx.config.database.isSome = true) :
    Draws (ctx.assembleUnit p s final extension u actions) (requested final extension [u.name]) w
      fun paths r => ∃ a, u.Handled ctx.settings p s a ∧ Assigned final paths [a] ∧
        r = (u.advance a ⟨s, (actions.stage s).length⟩, actions.extend s [a]) := by
  obtain ⟨kind, hkind⟩ := Option.isSome_iff_exists.mp hk
  obtain ⟨q, hq⟩ : ∃ q, u.nextInput = some q := by
    cases hn : u.nextInput with
    | none => rw [nextFormat, hn] at hkind; cases hkind
    | some q => exact ⟨q, rfl⟩
  have harity : kind.arity = .single := by
    rw [ActionKind.arity_of_dispatch hkind, if_neg hs]
  unfold assembleUnit
  refine (draws_ofExcept (kindFor_eq_ok hkind)).pure_bind ?_
  rintro _ rfl
  rw [← List.append_nil (requested final extension [u.name])]
  refine (attachOutput_draws u).bind ?_
  rintro paths _ w' - ⟨o, rfl, ho⟩
  refine (buildAction_draws (P := fun a => u.Handled ctx.settings p s a ∧ a.binding.output = o)
    fun fs => ?_).pure_bind ?_
  · obtain ⟨t, ht⟩ := ctx.settings.exists_template fs fun hp =>
      hd (ActionKind.stage_of_isPass hkind hp)
    have hin : (u.append o).currentInput = .ok q := by rw [currentInput_append, hq]
    refine ⟨_, Action.build_single harity ht hin (currentOutput_append u o), ?_, rfl⟩
    exact ⟨⟨⟨fs, ht⟩, rfl, rfl⟩, hkind, by rw [hq]; rfl⟩
  · rintro a ⟨ha, rfl⟩
    refine draws_pure ⟨a, ha, ?_, rfl⟩
    rw [List.append_nil]
    exact ho a rfl

theorem assembleUnits_draws {units : List CompilationUnit} {actions : StageActions}
    (hs : s ≠ .link)
    (hk : ∀ u ∈ units, (ActionKind.dispatch p s u.nextFormat).isSome = true)
    (hd : s = .analyze ∨ s = .transform → ctx.config.database.isSome = true) :
    Draws (ctx.assembleUnits p s final extension units actions)
      (requested final extension (units.map (·.name))) w
      fun paths r => ∃ acts, Advances ctx.settings p s (actions.stage s).length units acts r.1 ∧
        Assigned final paths acts ∧ r.2 = actions.extend s acts := by
  -- The list of the stage grows with every unit, so the place of the first action is general.
  induction units generalizing actions w with
  | nil =>
    rw [List.map_nil, requested_nil]
    refine draws_pure ?_
    exact ⟨[], .nil _, assigned_nil, (StageActions.extend_nil _ _).symm⟩
  | cons u rest ih =>
    obtain ⟨hu, hrest⟩ := List.forall_mem_cons.mp hk
    unfold assembleUnits
    rw [List.map_cons, requested_cons]
    refine (assembleUnit_draws hs hu hd).bind ?_
    rintro paths _ w' - ⟨a, ha, hpaths, rfl⟩
    refine (ih hrest).bind_pure ?_
    rintro paths' ⟨units', _⟩ ⟨acts, hacts, hpaths', rfl⟩
    rw [StageActions.stage_extend_self, List.length_append, List.length_singleton] at hacts
    exact ⟨a :: acts, .cons ha hacts, hpaths.cons hpaths',
      StageActions.extend_extend actions s [a] acts⟩

/-- A unit in a form that is not accepted stops assembly once the units before it have advanced. -/
theorem assembleUnits_rejects {before after : List CompilationUnit} {u : CompilationUnit}
    {actions : StageActions} (hs : s ≠ .link)
    (hk : ∀ u ∈ before, (ActionKind.dispatch p s u.nextFormat).isSome = true)
    (hd : s = .analyze ∨ s = .transform → ctx.config.database.isSome = true)
    (hu : ActionKind.dispatch p s u.nextFormat = none) :
    Rejects (ctx.assembleUnits p s final extension (before ++ u :: after) actions)
      (requested final extension (before.map (·.name))) w (u.unrecognized p s) := by
  induction before generalizing actions w with
  | nil =>
    rw [List.nil_append]
    unfold assembleUnits assembleUnit
    have he : u.kindFor p s u.nextFormat = .error (u.unrecognized p s) := by rw [kindFor, hu]
    rw [List.map_nil, requested_nil]
    exact (rejects_ofExcept he).bind.bind
  | cons v rest ih =>
    obtain ⟨hv, hrest⟩ := List.forall_mem_cons.mp hk
    rw [List.cons_append]
    unfold assembleUnits
    rw [List.map_cons, requested_cons]
    refine (assembleUnit_draws hs hv hd).bind_rejects ?_
    rintro paths _ w' ⟨a, -, -, rfl⟩
    exact (ih hrest).bind

end AssemblyContext

end CompilerDriver
