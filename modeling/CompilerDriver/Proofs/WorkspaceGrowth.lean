import CompilerDriver.Proofs.Drawing
import CompilerDriver.Proofs.FileLifetime

/-!
# What assembly does to its workspace

Whatever steps an assembler has, whether it succeeds or fails, and wherever it
stops: it makes temporaries and registers each of them, and changes nothing
else. Each new action is built on the file system of a moment in between.
-/
namespace CompilerDriver

theorem FileSystem.isAbsolute_absolute (fs : FileSystem) (p : Path) :
    (fs.absolute p).isAbsolute = true := by
  cases hp : p.isAbsolute with
  | true => rw [absolute, Path.join_of_isAbsolute hp, hp]
  | false =>
    rw [absolute, Path.isAbsolute_join hp]
    unfold Location.toPath
    cases fs.workingDir <;> rfl

theorem NameSupply.creates_of_create {dir path : Path} {name extension : String} {tries : Nat}
    {names names' : NameSupply} {fs fs' : FileSystem}
    (h : NameSupply.create dir name extension tries names fs = (.ok (path, fs'), names')) :
    fs.Creates path fs' := by
  induction tries generalizing names with
  | zero => cases congrArg Prod.fst h
  | succ tries ih =>
    simp only [create] at h
    split at h
    · next hattempt =>
      cases h
      unfold attempt at hattempt
      split at hattempt
      · cases hattempt
      · exact FileSystem.creates_of_createNew (fs.isAbsolute_absolute _) hattempt
    · split at h
      · exact ih h
      · cases congrArg Prod.fst h

namespace Workspace

/-- New temporaries are made and registered, and nothing else has changed but the supply of
names. -/
def Grows (w w' : Workspace) : Prop :=
  ∃ paths, w'.arena = { w.arena with paths := w.arena.paths ++ paths } ∧ w.fs.Created paths w'.fs

variable {w mid w' : Workspace}

theorem Grows.refl (w : Workspace) : w.Grows w :=
  ⟨[], by rw [List.append_nil], .nil⟩

theorem Grows.trans (h : w.Grows mid) (h' : mid.Grows w') : w.Grows w' := by
  obtain ⟨paths, ha, hc⟩ := h
  obtain ⟨more, ha', hc'⟩ := h'
  refine ⟨paths ++ more, ?_, hc.append hc'⟩
  rw [ha', ha, List.append_assoc]

theorem grows_allocate (w : Workspace) (name extension : String) :
    w.Grows (w.allocate name extension).2 := by
  unfold allocate
  split
  · next path fs names hc =>
    have hcreates : w.fs.Creates path fs := NameSupply.creates_of_create hc
    exact ⟨[path], rfl, FileSystem.Created.nil.concat hcreates⟩
  · exact ⟨[], by rw [List.append_nil], .nil⟩

end Workspace

theorem exists_of_bind_eq_ok {ε α β : Type} {x : Except ε α} {f : α → Except ε β} {b : β}
    (h : x >>= f = .ok b) : ∃ a, x = .ok a ∧ f a = .ok b := by
  cases x with
  | error e => cases h
  | ok a => exact ⟨a, rfl, h⟩

/-- A new action has the template of its kind, and nothing on record. -/
theorem Action.of_build_eq_ok {settings : BuildSettings} {fs : FileSystem} {kind : ActionKind}
    {units : List CompilationUnit} {a : Action} (h : Action.build settings fs kind units = .ok a) :
    settings.template fs a.kind = .ok a.template ∧ a.result = .notRun ∧ a.launchError = none := by
  unfold build at h
  obtain ⟨-, -, h⟩ := exists_of_bind_eq_ok h
  obtain ⟨template, htemplate, h⟩ := exists_of_bind_eq_ok h
  cases units with
  | nil => cases h
  | cons target others =>
    obtain ⟨binding, -, h⟩ := exists_of_bind_eq_ok h
    cases h
    exact ⟨htemplate, rfl, rfl⟩

/-- The action was built on the file system of a workspace between two others. -/
def Action.BuiltBetween (settings : BuildSettings) (w w' : Workspace) (a : Action) : Prop :=
  ∃ mid kind units, w.Grows mid ∧ mid.Grows w' ∧ Action.build settings mid.fs kind units = .ok a

namespace StageActions

theorem mem_toList_iff {t : StageActions} {a : Action} : a ∈ t.toList ↔ ∃ s, a ∈ t.stage s := by
  rw [toList, List.mem_flatMap]
  constructor
  · rintro ⟨s, -, ha⟩
    exact ⟨s, ha⟩
  · rintro ⟨s, ha⟩
    exact ⟨s, s.mem_all, ha⟩

theorem mem_toList_push {t : StageActions} {s : Stage} {a b : Action}
    (h : b ∈ (t.push s a).1.toList) : b ∈ t.toList ∨ b = a := by
  obtain ⟨r, hb⟩ := mem_toList_iff.mp h
  unfold push at hb
  by_cases hr : r = s
  · subst hr
    rw [stage_setStage_self, List.mem_append, List.mem_singleton] at hb
    exact hb.imp_left fun hb => mem_toList_iff.mpr ⟨r, hb⟩
  · rw [stage_setStage_of_ne _ _ hr] at hb
    exact Or.inl (mem_toList_iff.mpr ⟨r, hb⟩)

/-- All that is new among the actions was built on the way from one workspace to the other. -/
def AddsBuilt (settings : BuildSettings) (w : Workspace) (t : StageActions) (w' : Workspace)
    (t' : StageActions) : Prop :=
  ∀ a ∈ t'.toList, a ∈ t.toList ∨ a.BuiltBetween settings w w'

variable {settings : BuildSettings} {w mid w' : Workspace} {t t₁ t' : StageActions}

theorem AddsBuilt.refl (settings : BuildSettings) (w w' : Workspace) (t : StageActions) :
    AddsBuilt settings w t w' t :=
  fun _ ha => Or.inl ha

theorem AddsBuilt.trans (hw : w.Grows mid) (hw' : mid.Grows w')
    (h : AddsBuilt settings w t mid t₁) (h' : AddsBuilt settings mid t₁ w' t') :
    AddsBuilt settings w t w' t' := by
  intro a ha
  rcases h' a ha with ha | ⟨at_, kind, units, hb, hb', hbuild⟩
  · rcases h a ha with ha | ⟨at_, kind, units, hb, hb', hbuild⟩
    · exact Or.inl ha
    · exact Or.inr ⟨at_, kind, units, hb, hb'.trans hw', hbuild⟩
  · exact Or.inr ⟨at_, kind, units, hw.trans hb, hb', hbuild⟩

theorem addsBuilt_push {s : Stage} {a : Action} (h : a.BuiltBetween settings w w') :
    AddsBuilt settings w t w' (t.push s a).1 := by
  intro b hb
  rcases mem_toList_push hb with hb | rfl
  · exact Or.inl hb
  · exact Or.inr h

end StageActions

namespace AssemblyM

variable {α β : Type}

/-- Wherever the step is run, it lets the workspace grow, and its result stands in the stated
relation to the workspaces before and after. -/
def Obeys (m : AssemblyM α) (Q : Workspace → α → Workspace → Prop) : Prop :=
  ∀ w, w.Grows (m.run w).2 ∧ ∀ a, (m.run w).1 = .ok a → Q w a (m.run w).2

variable {m : AssemblyM α} {f : α → AssemblyM β} {Q Q' : Workspace → α → Workspace → Prop}
  {R : α → Workspace → β → Workspace → Prop} {S : Workspace → β → Workspace → Prop}

theorem obeys_pure {a : α} (h : ∀ w, Q w a w) : Obeys (pure a) Q := by
  intro w
  refine ⟨.refl w, fun b hb => ?_⟩
  cases hb
  exact h w

theorem obeys_throw (e : PipelineError) : Obeys (throw e : AssemblyM α) Q := by
  intro w
  exact ⟨.refl w, fun b hb => by cases hb⟩

theorem obeys_ofExcept {x : Except PipelineError α} (h : ∀ a, x = .ok a → ∀ w, Q w a w) :
    Obeys (ofExcept x) Q := by
  cases x with
  | error e => exact obeys_throw e
  | ok a => exact obeys_pure (h a rfl)

theorem Obeys.bind (h : Obeys m Q) (hf : ∀ a, Obeys (f a) (R a))
    (hs : ∀ w a mid b w', w.Grows mid → mid.Grows w' → Q w a mid → R a mid b w' → S w b w') :
    Obeys (m >>= f) S := by
  intro w
  obtain ⟨hgrows, hq⟩ := h w
  rw [run_bind]
  rcases hm : m.run w with ⟨e | a, mid⟩
  · rw [hm] at hgrows
    exact ⟨hgrows, fun b hb => by cases hb⟩
  · rw [hm] at hgrows hq
    obtain ⟨hgrows', hr⟩ := hf a mid
    exact ⟨hgrows.trans hgrows', fun b hb =>
      hs w a mid b _ hgrows hgrows' (hq a rfl) (hr b hb)⟩

theorem Obeys.mono (h : Obeys m Q) (hq : ∀ w a w', Q w a w' → Q' w a w') : Obeys m Q' :=
  fun w => ⟨(h w).1, fun a ha => hq w a _ ((h w).2 a ha)⟩

/-- A step without actions before one that adds some. -/
theorem Obeys.before_adds {settings : BuildSettings} {t : StageActions} {g : β → StageActions}
    (h : Obeys m fun _ _ _ => True)
    (hf : ∀ a, Obeys (f a) fun w b w' => StageActions.AddsBuilt settings w t w' (g b)) :
    Obeys (m >>= f) fun w b w' => StageActions.AddsBuilt settings w t w' (g b) := by
  apply h.bind hf
  intro w a mid b w' hw hw' _ hadds
  exact StageActions.AddsBuilt.trans hw hw' (.refl settings w mid t) hadds

/-- A step that adds actions before one that only returns. -/
theorem Obeys.adds_pure {settings : BuildSettings} {t : StageActions} {g : α → StageActions}
    {g' : β → StageActions} {r : α → β}
    (h : Obeys m fun w a w' => StageActions.AddsBuilt settings w t w' (g a))
    (hr : ∀ a, g' (r a) = g a) :
    Obeys (m >>= fun a => pure (r a)) fun w b w' =>
      StageActions.AddsBuilt settings w t w' (g' b) := by
  apply h.bind (R := fun a w b w' => w = w' ∧ b = r a) fun a => obeys_pure fun w => ⟨rfl, rfl⟩
  rintro w a mid b w' - - hadds ⟨rfl, rfl⟩
  rw [hr]
  exact hadds

end AssemblyM

section Steps

open AssemblyM StageActions

variable {ctx : AssemblyContext} {p : Pipeline} {s : Stage} {final : Option Path}
  {extension : String} {plan : BuildPlan}

theorem CompilationUnit.attachOutput_appends (u : CompilationUnit) :
    Obeys (u.attachOutput final extension) fun _ u' _ => ∃ o, u' = u.append o := by
  cases final with
  | some path => exact obeys_pure fun _ => ⟨path, rfl⟩
  | none =>
    intro w
    have hgrows := w.grows_allocate u.name extension
    rw [run_attachOutput_none, appendTemporary]
    rcases ha : w.allocate u.name extension with ⟨e | path, w'⟩
    · rw [ha] at hgrows
      exact ⟨hgrows, fun u' hu => by cases hu⟩
    · rw [ha] at hgrows
      refine ⟨hgrows, fun u' hu => ?_⟩
      cases hu
      exact ⟨path, rfl⟩

namespace AssemblyContext

theorem buildAction_obeys (kind : ActionKind) (units : List CompilationUnit) :
    Obeys (ctx.buildAction kind units) fun w a w' => a.BuiltBetween ctx.settings w w' := by
  intro w
  rw [run_buildAction]
  exact ⟨.refl w, fun a ha => ⟨w, kind, units, .refl w, .refl w, ha⟩⟩

theorem assembleUnit_obeys (u : CompilationUnit) (actions : StageActions) :
    Obeys (ctx.assembleUnit p s final extension u actions) fun w r w' =>
      AddsBuilt ctx.settings w actions w' r.2 := by
  unfold assembleUnit
  refine Obeys.before_adds (obeys_ofExcept fun _ _ _ => trivial) ?_
  intro kind
  refine Obeys.before_adds (u.attachOutput_appends.mono fun _ _ _ _ => trivial) ?_
  intro u'
  have hpush : Obeys (ctx.buildAction kind [u']) fun w a w' =>
      AddsBuilt ctx.settings w actions w' (actions.push s a).1 :=
    (buildAction_obeys kind [u']).mono fun _ _ _ => addsBuilt_push
  exact hpush.adds_pure (g := fun a => (actions.push s a).1) fun _ => rfl

theorem assembleUnits_obeys (units : List CompilationUnit) (actions : StageActions) :
    Obeys (ctx.assembleUnits p s final extension units actions) fun w r w' =>
      AddsBuilt ctx.settings w actions w' r.2 := by
  induction units generalizing actions with
  | nil => exact obeys_pure fun w => .refl _ w w actions
  | cons u rest ih =>
    unfold assembleUnits
    apply Obeys.bind (assembleUnit_obeys u actions) (R := fun r w r' w' =>
      AddsBuilt ctx.settings w r.2 w' r'.2)
    · rintro ⟨u', actions'⟩
      exact (ih actions').adds_pure fun _ => rfl
    · intro w r mid r' w' hw hw' h h'
      exact AddsBuilt.trans hw hw' h h'

theorem perUnit_obeys : Obeys (ctx.perUnit s p plan) fun w plan' w' =>
    AddsBuilt ctx.settings w plan.actions w' plan'.actions := by
  unfold perUnit
  dsimp only
  split_ifs
  · refine Obeys.before_adds ?_ fun final => (assembleUnits_obeys _ _).adds_pure fun _ => rfl
    cases ctx.finalOutput p with
    | error e => exact obeys_throw e
    | ok path => exact obeys_pure (a := some path) fun _ => trivial
  · refine Obeys.before_adds ?_ fun final => (assembleUnits_obeys _ _).adds_pure fun _ => rfl
    exact obeys_pure fun _ => trivial

theorem link_obeys : Obeys (ctx.link p plan) fun w plan' w' =>
    AddsBuilt ctx.settings w plan.actions w' plan'.actions := by
  unfold link
  refine Obeys.before_adds (obeys_ofExcept fun _ _ _ => trivial) ?_
  intro output
  refine Obeys.before_adds (obeys_ofExcept fun _ _ _ => trivial) ?_
  intro kind?
  cases kind? with
  | none => exact obeys_throw _
  | some kind =>
    refine Obeys.before_adds
      ((CompilationUnit.attachOutput_appends _).mono fun _ _ _ _ => trivial) ?_
    intro combined
    have hpush : Obeys (ctx.buildAction kind (combined :: (plan.pipeline p).units)) fun w a w' =>
        AddsBuilt ctx.settings w plan.actions w' (plan.actions.push .link a).1 :=
      (buildAction_obeys kind _).mono fun _ _ _ => addsBuilt_push
    exact hpush.adds_pure (g := fun a => (plan.actions.push .link a).1) fun _ => rfl

theorem carrier_obeys : Obeys (ctx.carrier s p plan) fun w plan' w' =>
    AddsBuilt ctx.settings w plan.actions w' plan'.actions := by
  unfold carrier
  dsimp only
  split_ifs
  · exact obeys_throw (.stageOrdering s)
  · refine Obeys.before_adds (obeys_ofExcept fun _ _ _ => trivial) fun output => ?_
    refine Obeys.before_adds (obeys_ofExcept fun _ _ _ => trivial) fun u => ?_
    exact (assembleUnit_obeys u plan.actions).adds_pure fun _ => rfl

end AssemblyContext

namespace StageAssembler

theorem run_obeys (a : StageAssembler) : Obeys (a.run ctx p plan) fun w plan' w' =>
    AddsBuilt ctx.settings w plan.actions w' plan'.actions := by
  cases a with
  | perUnit s => exact AssemblyContext.perUnit_obeys
  | link => exact AssemblyContext.link_obeys
  | carrier s => exact AssemblyContext.carrier_obeys

end StageAssembler

/-- A run of steps over a plan adds what each of the steps adds. -/
theorem AssemblyM.foldlM_obeys {γ : Type} {settings : BuildSettings}
    {step : BuildPlan → γ → AssemblyM BuildPlan}
    (h : ∀ plan x, Obeys (step plan x) fun w plan' w' =>
      AddsBuilt settings w plan.actions w' plan'.actions) (xs : List γ) (plan : BuildPlan) :
    Obeys (xs.foldlM step plan) fun w plan' w' =>
      AddsBuilt settings w plan.actions w' plan'.actions := by
  induction xs generalizing plan with
  | nil => exact obeys_pure fun w => .refl _ w w plan.actions
  | cons x rest ih =>
    rw [List.foldlM_cons]
    apply Obeys.bind (h plan x) fun mid => ih mid
    intro w mid w₁ plan' w' hw hw' hmid hplan'
    exact AddsBuilt.trans hw hw' hmid hplan'

namespace StageAssembler

theorem runPipelines_obeys (a : StageAssembler) (plan : BuildPlan) :
    Obeys (a.runPipelines ctx plan) fun w plan' w' =>
      AddsBuilt ctx.settings w plan.actions w' plan'.actions := by
  apply foldlM_obeys
  intro plan p
  split_ifs
  · exact a.run_obeys
  · exact obeys_pure fun w => .refl _ w w plan.actions

end StageAssembler

end Steps

namespace Assembler

open AssemblyM

variable {a : Assembler} {settings : BuildSettings} {stages : StagePlan} {w w' : Workspace}

theorem assemble_obeys (a : Assembler) (settings : BuildSettings) (stages : StagePlan) :
    Obeys (a.assemble settings stages) fun w plan w' =>
      ∀ action ∈ plan.actions.toList, action.BuiltBetween settings w w' := by
  have hadds : Obeys (a.assemble settings stages) fun w plan w' =>
      StageActions.AddsBuilt settings w {} w' plan.actions :=
    AssemblyM.foldlM_obeys (fun plan step => step.runPipelines_obeys plan) _ _
  apply hadds.mono
  intro w plan w' hplan action haction
  rcases hplan action haction with hinitial | hbuilt
  · cases hinitial
  · exact hbuilt

/-- The registry holds exactly the temporaries that were made, also where assembly fails. -/
theorem grows_assemble (a : Assembler) (settings : BuildSettings) (stages : StagePlan)
    (w : Workspace) : w.Grows ((a.assemble settings stages).run w).2 :=
  (assemble_obeys a settings stages w).1

theorem builtBetween_of_assemble {plan : BuildPlan}
    (h : (a.assemble settings stages).run w = (.ok plan, w')) :
    ∀ action ∈ plan.actions.toList, action.BuiltBetween settings w w' := by
  have hplan := (assemble_obeys a settings stages w).2 plan (by rw [h])
  rwa [h] at hplan

end Assembler

end CompilerDriver
