import CompilerDriver.Proofs.AuditTrail
import CompilerDriver.Proofs.StageDraws

/-!
# What can stop assembly

An assembler may have its steps in any number, and a step may stand under a
stage that it is not made for. Even so a step asks a unit for its input or its
output only after it has made sure that the unit has them: what is to be read
has been recognized by its form, and what is to be written has just been given.
Each step therefore fails in few ways, which are listed once and hold of whole
assemblies.
-/
namespace CompilerDriver

theorem error_or_of_bind_eq_error {α β : Type} {x : Except PipelineError α}
    {f : α → Except PipelineError β} {e : PipelineError} (h : x >>= f = .error e) :
    x = .error e ∨ ∃ a, x = .ok a ∧ f a = .error e := by
  cases x with
  | error e' =>
    cases h
    exact Or.inl rfl
  | ok a => exact Or.inr ⟨a, rfl, h⟩

/-- How a step of an assembler can fail. -/
inductive StageAssembler.FailsWith (x : StageAssembler) (ctx : AssemblyContext) :
    PipelineError → Prop where
  | output (p : Pipeline) : (ctx.config.pipeline p).output = none →
      FailsWith x ctx (.missingOutput p)
  | form (path : Path) (p : Pipeline) (s : Stage) :
      FailsWith x ctx (.unrecognizedInputFormat path p s)
  | temporary (source : SystemError) : FailsWith x ctx (.tempArtifact source)
  | setting (kind : ActionKind) (what : String) : FailsWith x ctx (.missingConfig kind.name what)
  /-- The stage is one whose actions bind another number of units. -/
  | arity (kind : ActionKind) (found : Nat) : ¬kind.arity.Accepts found →
      FailsWith x ctx (.invalidActionArguments kind.name kind.arity.description found)
  /-- Several units have not been linked, and none of them carries the result. -/
  | carrier (s : Stage) (p : Pipeline) : x = .carrier s →
      2 ≤ (ctx.config.pipeline p).inputs.length →
      FailsWith x ctx (.invalidActionArguments s.name Arity.single.description
        (ctx.config.pipeline p).inputs.length)
  | ordering (s : Stage) : x = .carrier s → ctx.stages.isLast s = false →
      FailsWith x ctx (.stageOrdering s)

namespace BuildSettings

variable {settings : BuildSettings} {fs : FileSystem} {kind : ActionKind} {e : PipelineError}

theorem template_eq_error (h : settings.template fs kind = .error e) :
    ∃ what, e = .missingConfig kind.name what := by
  have hpass : ∀ plugin, settings.pass kind plugin = .error e →
      ∃ what, e = .missingConfig kind.name what := by
    intro plugin hp
    unfold pass at hp
    split at hp
    · cases hp
      exact ⟨_, rfl⟩
    · cases hp
  cases kind with
  | deviceAnalyze | deviceTransform | hostTransform => exact hpass _ h
  | _ => cases h

end BuildSettings

namespace Action

variable {settings : BuildSettings} {fs : FileSystem} {kind : ActionKind} {u : CompilationUnit}
  {others : List CompilationUnit} {o : Path} {e : PipelineError}

/-- A unit that has something to read next can be bound once it is given an output, and so can
units with an output be merged. -/
theorem exists_bind_append (hu : kind.arity = .single → u.nextInput.isSome = true)
    (hothers : ∀ v ∈ others, v.current.isSome = true) :
    ∃ b, bind kind (u.append o) others = .ok b := by
  have hinput (ha : kind.arity = .single) : ∃ q, (u.append o).currentInput = .ok q := by
    obtain ⟨q, hq⟩ := Option.isSome_iff_exists.mp (hu ha)
    exact ⟨q, by rw [CompilationUnit.currentInput_append, hq]⟩
  unfold bind
  split
  · have hcurrent : others.map (·.current) =
        (others.map fun v => v.current.getD default).map some := by
      rw [List.map_map]
      apply List.map_congr_left
      intro v hv
      obtain ⟨q, hq⟩ := Option.isSome_iff_exists.mp (hothers v hv)
      simp [hq]
    rw [CompilationUnit.currentOutput_append, AssemblyContext.mapM_currentOutput hcurrent]
    exact ⟨_, rfl⟩
  · next ha =>
    obtain ⟨q, hq⟩ := hinput ha
    rw [hq, CompilationUnit.currentOutput_append]
    exact ⟨_, rfl⟩
  · next _ ha =>
    obtain ⟨q, hq⟩ := hinput ha
    rw [hq, CompilationUnit.currentOutput_append]
    exact ⟨_, rfl⟩

/-- Where all files are there, only the number of units or a missing setting is in the way. -/
theorem build_eq_error (hu : kind.arity = .single → u.nextInput.isSome = true)
    (hothers : ∀ v ∈ others, v.current.isSome = true)
    (h : build settings fs kind (u.append o :: others) = .error e)
    (x : StageAssembler) (ctx : AssemblyContext) : x.FailsWith ctx e := by
  unfold build at h
  rcases error_or_of_bind_eq_error h with harity | ⟨-, -, h⟩
  · unfold ActionKind.checkArity at harity
    split_ifs at harity with hn
    cases harity
    exact .arity kind _ hn
  rcases error_or_of_bind_eq_error h with htemplate | ⟨t, -, h⟩
  · obtain ⟨what, rfl⟩ := BuildSettings.template_eq_error htemplate
    exact .setting kind what
  · obtain ⟨b, hb⟩ := exists_bind_append (o := o) hu hothers
    rcases error_or_of_bind_eq_error h with hbind | ⟨b', -, h⟩
    · rw [hb] at hbind
      cases hbind
    · cases h

end Action

namespace AssemblyM

variable {α β γ : Type} {m : AssemblyM α} {f : α → AssemblyM β} {E F : PipelineError → Prop}
  {P : α → Prop} {S : β → Prop}

/-- Wherever the step is run, it fails in one of the stated ways if it fails. -/
def FailsWithin (m : AssemblyM α) (E : PipelineError → Prop) : Prop :=
  ∀ w e, (m.run w).1 = .error e → E e

theorem failsWithin_pure {a : α} : FailsWithin (pure a) E := by
  intro w e h
  cases h

theorem failsWithin_throw {e : PipelineError} (he : E e) :
    FailsWithin (throw e : AssemblyM α) E := by
  intro w e' h
  cases h
  exact he

theorem failsWithin_ofExcept {x : Except PipelineError α} (h : ∀ e, x = .error e → E e) :
    FailsWithin (ofExcept x) E := by
  cases x with
  | error e => exact failsWithin_throw (h e rfl)
  | ok a => exact failsWithin_pure

theorem FailsWithin.mono (h : FailsWithin m E) (hF : ∀ e, E e → F e) : FailsWithin m F :=
  fun w e he => hF e (h w e he)

/-- Steps one after the other, where the second one relies on what the first one returns. -/
theorem FailsWithin.bind (h : FailsWithin m E) (hp : Obeys m fun _ a _ => P a)
    (hf : ∀ a, P a → FailsWithin (f a) E) : FailsWithin (m >>= f) E := by
  intro w e he
  have hfails := h w
  have hreturns := (hp w).2
  rw [run_bind] at he
  rcases hm : m.run w with ⟨e' | a, mid⟩
  · rw [hm] at he hfails
    cases he
    exact hfails e rfl
  · rw [hm] at he hreturns
    exact hf a (hreturns a rfl) mid e he

/-- A loop fails as one of its steps does, started from where the steps before have led. -/
theorem failsWithin_foldlM {step : β → γ → AssemblyM β} {xs : List γ}
    (hE : ∀ x ∈ xs, ∀ b, S b → FailsWithin (step b x) E)
    (hS : ∀ x ∈ xs, ∀ b, S b → Obeys (step b x) fun _ b' _ => S b') {b : β} (hb : S b) :
    FailsWithin (xs.foldlM step b) E := by
  induction xs generalizing b with
  | nil => exact failsWithin_pure
  | cons x rest ih =>
    obtain ⟨hx, hrest⟩ := List.forall_mem_cons.mp hE
    obtain ⟨hx', hrest'⟩ := List.forall_mem_cons.mp hS
    rw [List.foldlM_cons]
    exact (hx b hb).bind (hx' b hb) fun b' hb' => ih hrest hrest' hb'

end AssemblyM

section Steps

open AssemblyM BuildPlan StageAssembler

variable {ctx : AssemblyContext} {p : Pipeline} {s : Stage} {final : Option Path}
  {extension : String} {plan : BuildPlan} {x : StageAssembler}

namespace CompilationUnit

theorem attachOutput_fails (u : CompilationUnit) :
    FailsWithin (u.attachOutput final extension) (x.FailsWith ctx) := by
  cases final with
  | some path => exact failsWithin_pure
  | none =>
    intro w e he
    rw [run_attachOutput_none, appendTemporary] at he
    rcases ha : w.allocate u.name extension with ⟨e' | path, w'⟩
    · rw [ha] at he
      cases he
      obtain ⟨source, rfl⟩ := Workspace.tempArtifact_of_allocate ha
      exact .temporary source
    · rw [ha] at he
      cases he

theorem kindFor_eq_error {u : CompilationUnit} {format : Option Format} {e : PipelineError}
    (h : u.kindFor p s format = .error e) : x.FailsWith ctx e := by
  unfold kindFor at h
  split at h
  · cases h
  · cases h
    exact .form _ _ _

theorem dispatch_of_kindFor {u : CompilationUnit} {format : Option Format} {kind : ActionKind}
    (h : u.kindFor p s format = .ok kind) : ActionKind.dispatch p s format = some kind := by
  unfold kindFor at h
  split at h
  · next hd =>
    cases h
    exact hd
  · cases h

/-- What has been recognized is there. -/
theorem isSome_nextInput {u : CompilationUnit} {kind : ActionKind}
    (h : u.kindFor p s u.nextFormat = .ok kind) : u.nextInput.isSome = true := by
  have hd := dispatch_of_kindFor h
  unfold nextFormat at hd
  cases hn : u.nextInput with
  | some q => rfl
  | none =>
    rw [hn] at hd
    cases hd

theorem isSome_current {u : CompilationUnit} {kind : ActionKind}
    (h : u.kindFor p s u.outputFormat = .ok kind) : u.current.isSome = true := by
  have hd := dispatch_of_kindFor h
  unfold outputFormat at hd
  cases hc : u.current with
  | some q => rfl
  | none =>
    rw [hc] at hd
    cases hd

end CompilationUnit

namespace AssemblyContext

open CompilationUnit

theorem finalOutput_eq_error {e : PipelineError} (h : ctx.finalOutput p = .error e) :
    x.FailsWith ctx e := by
  unfold finalOutput at h
  split at h
  · cases h
  · next hnone =>
    cases h
    exact .output p hnone

theorem buildAction_fails {kind : ActionKind} {u : CompilationUnit} {o : Path}
    {others : List CompilationUnit} (hu : kind.arity = .single → u.nextInput.isSome = true)
    (hothers : ∀ v ∈ others, v.current.isSome = true) :
    FailsWithin (ctx.buildAction kind (u.append o :: others)) (x.FailsWith ctx) := by
  intro w e he
  rw [run_buildAction] at he
  exact Action.build_eq_error hu hothers he x ctx

theorem assembleUnit_fails (u : CompilationUnit) (actions : StageActions) :
    FailsWithin (ctx.assembleUnit p s final extension u actions) (x.FailsWith ctx) := by
  unfold assembleUnit
  refine (failsWithin_ofExcept fun e he => kindFor_eq_error he).bind
    (obeys_ofExcept fun kind hk _ => isSome_nextInput hk) fun kind hnext => ?_
  refine u.attachOutput_fails.bind u.attachOutput_appends ?_
  rintro _ ⟨o, rfl⟩
  have hnone : ∀ v ∈ ([] : List CompilationUnit), v.current.isSome = true := by simp
  refine (buildAction_fails (fun _ => hnext) hnone).bind
    ((buildAction_obeys kind _).mono fun _ _ _ _ => trivial) fun _ _ => ?_
  exact failsWithin_pure

theorem assembleUnits_fails (units : List CompilationUnit) (actions : StageActions) :
    FailsWithin (ctx.assembleUnits p s final extension units actions) (x.FailsWith ctx) := by
  induction units generalizing actions with
  | nil => exact failsWithin_pure
  | cons u rest ih =>
    unfold assembleUnits
    refine (assembleUnit_fails u actions).bind
      ((assembleUnit_obeys u actions).mono fun _ _ _ _ => trivial) fun r _ => ?_
    refine (ih r.2).bind ((assembleUnits_obeys rest r.2).mono fun _ _ _ _ => trivial) fun _ _ => ?_
    exact failsWithin_pure

theorem perUnit_fails : FailsWithin (ctx.perUnit s p plan) (x.FailsWith ctx) := by
  have hunits (final : Option Path) :
      FailsWithin (do
        let r ← ctx.assembleUnits p s final (ctx.tempFormat s).extension (plan.pipeline p).units
          plan.actions
        return plan.put p { plan.pipeline p with units := r.1 } r.2) (x.FailsWith ctx) :=
    (assembleUnits_fails _ _).bind ((assembleUnits_obeys _ _).mono fun _ _ _ _ => trivial)
      fun _ _ => failsWithin_pure
  unfold perUnit
  dsimp only
  split_ifs
  · cases hf : ctx.finalOutput p with
    | error e => exact failsWithin_throw (finalOutput_eq_error hf)
    | ok path => exact hunits (some path)
  · exact hunits none

/-- A kind is found for units that all have an output, and for one unit at least. -/
theorem of_linkKind_eq_ok {units : List CompilationUnit} {kind kind' : Option ActionKind}
    (h : linkKind p units kind = .ok kind') :
    (∀ u ∈ units, u.current.isSome = true) ∧
      (units = [] ∧ kind' = kind ∨ ∃ k, kind' = some k ∧ k.arity = .merge) := by
  induction units generalizing kind with
  | nil =>
    cases h
    exact ⟨by simp, Or.inl ⟨rfl, rfl⟩⟩
  | cons u rest ih =>
    unfold linkKind at h
    obtain ⟨k, hk, h⟩ := exists_of_bind_eq_ok h
    obtain ⟨hrest, hkind⟩ := ih h
    have hmerge : k.arity = .merge := by
      rw [ActionKind.arity_of_dispatch (dispatch_of_kindFor hk)]
      rfl
    refine ⟨List.forall_mem_cons.mpr ⟨isSome_current hk, hrest⟩, Or.inr ?_⟩
    rcases hkind with ⟨-, hkind⟩ | hkind
    · exact ⟨k, hkind, hmerge⟩
    · exact hkind

theorem linkKind_eq_error {units : List CompilationUnit} {kind : Option ActionKind}
    {e : PipelineError} (h : linkKind p units kind = .error e) : x.FailsWith ctx e := by
  induction units generalizing kind with
  | nil => cases h
  | cons u rest ih =>
    unfold linkKind at h
    rcases error_or_of_bind_eq_error h with hk | ⟨k, -, h⟩
    · exact kindFor_eq_error hk
    · exact ih h

/-- Linking does not meet a pipeline without units. -/
theorem link_fails (hn : (plan.pipeline p).units ≠ []) :
    FailsWithin (ctx.link p plan) (x.FailsWith ctx) := by
  unfold link
  refine (failsWithin_ofExcept fun e he => finalOutput_eq_error he).bind (P := fun _ => True)
    (obeys_ofExcept fun _ _ _ => trivial) fun output _ => ?_
  refine (failsWithin_ofExcept fun e he => linkKind_eq_error he).bind
    (obeys_ofExcept fun kind? hk _ => of_linkKind_eq_ok hk) ?_
  rintro kind? ⟨hunits, ⟨hnil, -⟩ | ⟨kind, rfl, hmerge⟩⟩
  · exact absurd hnil hn
  · have hsingle : kind.arity = .single →
        ((plan.pipeline p).combined.getD (.combined output)).nextInput.isSome = true := by
      intro ha
      rw [hmerge] at ha
      cases ha
    refine (attachOutput_fails _).bind (attachOutput_appends _) ?_
    rintro _ ⟨o, rfl⟩
    refine (buildAction_fails hsingle hunits).bind
      ((buildAction_obeys kind _).mono fun _ _ _ _ => trivial) fun _ _ => ?_
    exact failsWithin_pure

theorem carrierOf_eq_error {units : PipelineUnits} {e : PipelineError}
    (h : carrierOf s units = .error e) : units.units.length ≠ 1 ∧
      e = .invalidActionArguments s.name Arity.single.description units.units.length := by
  obtain ⟨units, combined⟩ := units
  cases combined with
  | some u => cases h
  | none =>
    cases units with
    | nil =>
      cases h
      exact ⟨by simp, rfl⟩
    | cons u rest =>
      cases rest with
      | nil => cases h
      | cons v rest =>
        cases h
        exact ⟨by simp, rfl⟩

theorem carrier_fails (hn : (plan.pipeline p).units ≠ [])
    (hlength : (plan.pipeline p).units.length = (ctx.config.pipeline p).inputs.length) :
    FailsWithin (ctx.carrier s p plan) ((StageAssembler.carrier s).FailsWith ctx) := by
  unfold carrier
  dsimp only
  split_ifs with hlast
  · exact failsWithin_throw (.ordering s rfl (by simpa using hlast))
  · refine (failsWithin_ofExcept fun e he => finalOutput_eq_error he).bind (P := fun _ => True)
      (obeys_ofExcept fun _ _ _ => trivial) fun output _ => ?_
    refine FailsWithin.bind (P := fun _ => True) (failsWithin_ofExcept fun e he => ?_)
      (obeys_ofExcept fun _ _ _ => trivial) fun u _ => ?_
    · obtain ⟨hone, rfl⟩ := carrierOf_eq_error he
      have hpos : 0 < (plan.pipeline p).units.length := List.length_pos_iff.mpr hn
      rw [hlength] at hone hpos ⊢
      exact .carrier s p rfl (by omega)
    · exact (assembleUnit_fails u plan.actions).bind
        ((assembleUnit_obeys u plan.actions).mono fun _ _ _ _ => trivial)
        fun _ _ => failsWithin_pure

end AssemblyContext

namespace StageAssembler

theorem run_fails (x : StageAssembler) (hn : (plan.pipeline p).units ≠ [])
    (hlength : (plan.pipeline p).units.length = (ctx.config.pipeline p).inputs.length) :
    FailsWithin (x.run ctx p plan) (x.FailsWith ctx) := by
  cases x with
  | perUnit s => exact AssemblyContext.perUnit_fails
  | link => exact AssemblyContext.link_fails hn
  | carrier s => exact AssemblyContext.carrier_fails hn hlength

theorem runPipelines_fails (x : StageAssembler) (hs : ctx.stages.isActive x.stage = true)
    (hplan : Reaches ctx.stages (.initial ctx.stages ctx.config) plan) :
    FailsWithin (x.runPipelines ctx plan) (x.FailsWith ctx) := by
  refine failsWithin_foldlM (fun p _ plan hplan => ?_) (fun p _ plan hplan => ?_) hplan
  · split_ifs with ha
    · have hn : (plan.pipeline p).units ≠ [] := by
        intro hnil
        rw [PipelineUnits.isActive, hnil] at ha
        cases ha
      have hsources := congrArg List.length (map_source_of_reaches hplan p)
      rw [List.length_map, List.length_map] at hsources
      exact x.run_fails hn hsources
    · exact failsWithin_pure
  · split_ifs
    · exact (x.run_reaches hs).mono fun _ _ _ h => hplan.trans h
    · exact obeys_pure fun _ => hplan

end StageAssembler

end Steps

/-- No stage comes after assembly to machine code or disassembly, since the two exclude each
other. -/
theorem StagePlan.isLast_of_backend {o : StageOptions} {s : Stage}
    (hs : s = .assemble ∨ s = .disassemble) (ha : (ofOptions o).isActive s = true) :
    (ofOptions o).isLast s = true := by
  rcases o with ⟨a, b, c, d, e, f⟩
  rcases hs with rfl | rfl <;> revert ha <;>
    cases a <;> cases b <;> cases c <;> cases d <;> cases e <;> cases f <;> decide

namespace Assembler

open AssemblyM

/-- An assembly fails as one of its steps under an active stage does. -/
theorem assemble_fails (a : Assembler) (settings : BuildSettings) (stages : StagePlan) :
    FailsWithin (a.assemble settings stages) fun e =>
      ∃ x ∈ a.steps, stages.isActive x.stage = true ∧ x.FailsWith ⟨settings, stages⟩ e := by
  refine failsWithin_foldlM (S := BuildPlan.Reaches stages (.initial stages settings.config))
    (fun x hx plan hplan => ?_) (fun x hx plan hplan => ?_) .refl
  all_goals
    obtain ⟨hmem, hs⟩ := List.mem_filter.mp hx
    let ctx : AssemblyContext := ⟨settings, stages⟩
    have hs : ctx.stages.isActive x.stage = true := hs
  · exact (x.runPipelines_fails hs hplan).mono fun e he => ⟨x, hmem, hs, he⟩
  · exact x.runPipelines_reaches hs hplan

theorem mem_steps_ofSteps {steps : List StageAssembler} {x : StageAssembler} :
    x ∈ (ofSteps steps).steps ↔ x ∈ steps := by
  simp [ofSteps, Stage.mem_all]

/-- How an assembly may end. -/
structure SoundFailure (steps : List StageAssembler) (c : Config) (w : Workspace)
    (outcome : Except PipelineError BuildPlan × Workspace) : Prop where
  noInput : ∀ unit, outcome.1 ≠ .error (.noInputAssigned unit)
  noOutput : ∀ unit, outcome.1 ≠ .error (.noOutputAssigned unit)
  /-- No link is asked for without units. Under the stage of links, a carrier alone can complain. -/
  link : ∀ expected found,
    outcome.1 = .error (.invalidActionArguments "link" expected found) →
    .carrier .link ∈ steps ∧ expected = Arity.single.description ∧ 2 ≤ found ∧
      ∃ p, found = (c.pipeline p).inputs.length
  ordering : ofSteps steps = standard → ∀ s, outcome.1 ≠ .error (.stageOrdering s)
  /-- The registry holds the temporaries that were made, and no others. -/
  registered : w.Grows outcome.2

/-- For any steps in any order, any configuration and the stages of any options. -/
theorem soundFailure_assemble (steps : List StageAssembler) (settings : BuildSettings)
    (o : StageOptions) (w : Workspace) : SoundFailure steps settings.config w
      (((ofSteps steps).assemble settings (.ofOptions o)).run w) := by
  have hfails := assemble_fails (ofSteps steps) settings (.ofOptions o) w
  refine
    { noInput := fun unit h => ?_
      noOutput := fun unit h => ?_
      link := fun expected found h => ?_
      ordering := fun hstandard s h => ?_
      registered := (ofSteps steps).grows_assemble settings (.ofOptions o) w }
  · obtain ⟨x, -, -, hx⟩ := hfails _ h
    cases hx
  · obtain ⟨x, -, -, hx⟩ := hfails _ h
    cases hx
  · obtain ⟨x, hmem, -, hx⟩ := hfails _ h
    generalize he : PipelineError.invalidActionArguments "link" expected found = e at hx
    cases hx with
    | arity kind found' hn =>
      have hname : "link" = kind.name := by
        injection he
      exact absurd hname (by cases kind <;> decide)
    | carrier s p hx hmany =>
      injection he with hname hexpected hfound
      have hs : s = .link := by
        cases s <;> first | rfl | exact absurd hname (by decide)
      subst hs
      subst hx
      exact ⟨mem_steps_ofSteps.mp hmem, hexpected, hfound ▸ hmany, p, hfound⟩
    | _ => cases he
  · obtain ⟨x, hmem, hactive, hx⟩ := hfails _ h
    cases hx with
    | ordering _ hx hlast =>
      subst hx
      have hs : s = .assemble ∨ s = .disassemble := by
        rw [hstandard] at hmem
        revert hmem
        cases s <;> decide
      rw [StagePlan.isLast_of_backend hs hactive] at hlast
      cases hlast

end Assembler

namespace Sample

/-- A carrier in the place of the link step meets the two sources of the device pipeline. -/
theorem carrier_under_link :
    (((Assembler.ofSteps [.carrier .link]).assemble ⟨config, tools⟩ (.ofOptions {})).run
      workspace).1 = .error (.invalidActionArguments "link" "exactly one unit" 2) := by
  decide +kernel

end Sample

end CompilerDriver
