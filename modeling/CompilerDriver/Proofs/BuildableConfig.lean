import CompilerDriver.Proofs.AcceptedPlan
import Mathlib.Logic.Basic

/-!
# Configurations that can be built

Planning checks a configuration against the stages it has computed, one condition
after another. Here the same is said of the options, the inputs and the outputs
alone: which configurations are accepted, and what is wrong with one that is
refused.
-/
namespace CompilerDriver

namespace Config

/-- All that a configuration needs to be built. -/
structure Buildable (c : Config) : Prop where
  inputs : ∃ p, (c.pipeline p).inputs ≠ []
  output : ∀ p, (c.pipeline p).output.isSome = true ↔ (c.pipeline p).inputs ≠ []
  database : c.database.isSome = true ∨ c.stages.onlyCompile = true ∨
    c.stages.analyze = false ∧ c.stages.transform = false
  single : ∀ p, (c.pipeline p).inputs.length ≤ 1 ∨
    c.stages.onlyCompile = false ∧ c.stages.compileAnalyzeTransformOnly = false
  intermediate : c.stages.emitIntermediate = false ∨ c.stages.onlyCompile = true ∨
    c.stages.compileAnalyzeTransformOnly = true

/-- The error names a condition that the configuration violates. -/
inductive Violates (c : Config) : PipelineError → Prop where
  | noInputFiles : (∀ p, (c.pipeline p).inputs = []) → Violates c .noInputFiles
  | outputWithoutInput {p : Pipeline} : (c.pipeline p).output.isSome = true →
      (c.pipeline p).inputs = [] → Violates c (.outputWithoutInput p)
  | missingOutput {p : Pipeline} : (c.pipeline p).inputs ≠ [] → (c.pipeline p).output = none →
      Violates c (.missingOutput p)
  | databaseRequired : c.stages.onlyCompile = false →
      c.stages.analyze = true ∨ c.stages.transform = true → c.database = none →
      Violates c .databaseRequired
  | multipleInputsWithoutLink {p : Pipeline} :
      c.stages.onlyCompile = true ∨ c.stages.compileAnalyzeTransformOnly = true →
      1 < (c.pipeline p).inputs.length → Violates c (.multipleInputsWithoutLink p)
  | intermediateAfterLink : c.stages.onlyCompile = false →
      c.stages.compileAnalyzeTransformOnly = false → c.stages.emitIntermediate = true →
      Violates c .intermediateAfterLink

/-- Planning finds nothing wrong. -/
def IsAccepted (c : Config) : Prop := ∃ stages, StagePlan.resolve c = .ok stages

def setBackend (c : Config) (enabled : Bool) : Config :=
  { c with stages := { c.stages with backendStages := enabled } }

/-- The device and the host in each other's place. -/
def swapped (c : Config) : Config := { c with device := c.host, host := c.device }

variable {c : Config} {e : PipelineError}

/-- What can be built violates no condition. -/
theorem Buildable.not_violates (h : c.Buildable) : ¬ c.Violates e := by
  intro hv
  cases hv with
  | noInputFiles hnone =>
    obtain ⟨p, hp⟩ := h.inputs
    exact hp (hnone p)
  | @outputWithoutInput p ho hi => exact (h.output p).mp ho hi
  | @missingOutput p hi ho =>
    have hsome := (h.output p).mpr hi
    rw [ho] at hsome
    cases hsome
  | databaseRequired hcompile hpass hnone =>
    rcases h.database with hsome | honly | ⟨hanalyze, htransform⟩
    · rw [hnone] at hsome
      cases hsome
    · rw [hcompile] at honly
      cases honly
    · simp [hanalyze, htransform] at hpass
  | @multipleInputsWithoutLink p hshort hmany =>
    rcases h.single p with hone | ⟨hcompile, hbefore⟩
    · omega
    · simp [hcompile, hbefore] at hshort
  | intermediateAfterLink hcompile hbefore hemit =>
    rcases h.intermediate with hoff | honly | hshort
    · rw [hemit] at hoff
      cases hoff
    · rw [hcompile] at honly
      cases honly
    · rw [hbefore] at hshort
      cases hshort

theorem Buildable.setBackend (h : c.Buildable) (enabled : Bool) :
    (c.setBackend enabled).Buildable where
  inputs := h.inputs
  output := h.output
  database := h.database
  single := h.single
  intermediate := h.intermediate

theorem Buildable.swapped (h : c.Buildable) : c.swapped.Buildable where
  inputs := by
    obtain ⟨_ | _, hp⟩ := h.inputs
    · exact ⟨.host, hp⟩
    · exact ⟨.device, hp⟩
  output := Pipeline.rec (h.output .host) (h.output .device)
  database := h.database
  single := Pipeline.rec (h.single .host) (h.single .device)
  intermediate := h.intermediate

end Config

namespace StagePlan

variable {c : Config} {stages : StagePlan} {e : PipelineError}

theorem isActive_link_eq_false_iff {o : StageOptions} : (ofOptions o).isActive .link = false ↔
    o.onlyCompile = true ∨ o.compileAnalyzeTransformOnly = true := by
  rw [← Bool.not_eq_true, isActive_link_iff, not_and_or, Bool.not_eq_false, Bool.not_eq_false]

/-- A pass is active. -/
theorem isActive_pass_iff (o : StageOptions) :
    ((ofOptions o).isActive .analyze = true ∨ (ofOptions o).isActive .transform = true) ↔
      o.onlyCompile = false ∧ (o.analyze = true ∨ o.transform = true) := by
  rw [isActive_ofOptions o (by decide), isActive_ofOptions o (by decide)]
  simp [requested, PerStage.get, and_or_left]

/-- What is linked may be assembled, and nothing else. -/
theorem isActive_link_of_assemble {o : StageOptions}
    (h : (ofOptions o).isActive .assemble = true) : (ofOptions o).isActive .link = true := by
  rw [isActive_ofOptions o (by decide)]
  unfold ofOptions at h
  split at h
  · cases h
  · exact (Bool.and_eq_true_iff.mp h).1

/-- What is accepted has all that it needs. -/
theorem buildable_of_resolve (h : resolve c = .ok stages) : c.Buildable := by
  have haccepted := accepted_of_resolve h
  obtain ⟨rfl, hv⟩ := eq_ofOptions_of_resolve h
  simp only [validate, refuse_bind_eq_ok_iff, refuse_eq_ok_iff] at hv
  obtain ⟨-, -, -, -, -, -, -, -, hintermediate⟩ := hv
  refine
    { inputs := ?_
      output := fun p => by rw [haccepted.output p, PipelineConfig.isActive_iff]
      database := ?_
      single := fun p => ?_
      intermediate := ?_ }
  · rcases haccepted.active with hd | hh
    · exact ⟨.device, PipelineConfig.isActive_iff.mp hd⟩
    · exact ⟨.host, PipelineConfig.isActive_iff.mp hh⟩
  · have hdatabase := haccepted.database
    rw [isActive_pass_iff] at hdatabase
    by_cases hpass : c.stages.onlyCompile = false ∧
        (c.stages.analyze = true ∨ c.stages.transform = true)
    · exact Or.inl (hdatabase hpass)
    · rw [not_and_or, not_or, Bool.not_eq_false, Bool.not_eq_true, Bool.not_eq_true] at hpass
      exact Or.inr hpass
  · have hsingle := haccepted.single
    rw [← Bool.not_eq_true, isActive_link_iff] at hsingle
    by_cases hlink : c.stages.onlyCompile = false ∧ c.stages.compileAnalyzeTransformOnly = false
    · exact Or.inr hlink
    · exact Or.inl (hsingle hlink p)
  · cases hl : (ofOptions c.stages).isActive .link with
    | true =>
      rw [hl, Bool.true_or, Bool.true_and] at hintermediate
      exact Or.inl hintermediate
    | false => exact Or.inr (isActive_link_eq_false_iff.mp hl)

/-- The condition that a refusal names is violated. -/
theorem violates_of_resolve_error (h : resolve c = .error e) : c.Violates e := by
  have hv := validate_of_resolve_error h
  simp only [validate, refuse_bind_eq_error_iff, refuse_eq_error_iff] at hv
  rcases hv with h | ⟨-, h | ⟨-, h | ⟨-, h | ⟨-, h | ⟨-, h | ⟨-, h | ⟨-, h | ⟨-, h⟩⟩⟩⟩⟩⟩⟩⟩
  all_goals
    obtain ⟨hc, rfl⟩ := h
    simp only [Bool.and_eq_true, Bool.or_eq_true, Bool.not_eq_true', Option.isNone_iff_eq_none,
      PipelineConfig.isActive_iff, PipelineConfig.isActive_eq_false_iff, decide_eq_true_eq] at hc
  · exact .noInputFiles (Pipeline.rec hc.1 hc.2)
  · exact .outputWithoutInput hc.1 hc.2
  · exact .missingOutput hc.1 hc.2
  · exact .missingOutput hc.1 hc.2
  · rw [isActive_pass_iff] at hc
    exact .databaseRequired hc.1.1 hc.1.2 hc.2
  · exact .outputWithoutInput hc.1 hc.2
  · exact .multipleInputsWithoutLink (isActive_link_eq_false_iff.mp hc.1) hc.2
  · exact .multipleInputsWithoutLink (isActive_link_eq_false_iff.mp hc.1) hc.2
  · have hlink := (isActive_link_iff c.stages).mp (hc.1.elim id isActive_link_of_assemble)
    exact .intermediateAfterLink hlink.1 hlink.2 hc.2

end StagePlan

namespace Config

variable (c : Config)

theorem isAccepted_iff_buildable : c.IsAccepted ↔ c.Buildable := by
  constructor
  · rintro ⟨stages, h⟩
    exact StagePlan.buildable_of_resolve h
  · intro h
    cases hr : StagePlan.resolve c with
    | ok stages => exact ⟨stages, hr⟩
    | error e => exact absurd (StagePlan.violates_of_resolve_error hr) h.not_violates

/-- For every configuration: what is accepted, and why another one is refused. -/
theorem acceptance_by_options :
    (c.IsAccepted ↔ c.Buildable) ∧
    (∀ enabled, (c.setBackend enabled).IsAccepted ↔ c.IsAccepted) ∧
    (c.swapped.IsAccepted ↔ c.IsAccepted) ∧
    ∀ e, StagePlan.resolve c = .error e → c.Violates e := by
  refine ⟨c.isAccepted_iff_buildable, fun enabled => ?_, ?_, fun e h =>
    StagePlan.violates_of_resolve_error h⟩
  · rw [isAccepted_iff_buildable, isAccepted_iff_buildable]
    exact ⟨fun h => h.setBackend c.stages.backendStages, fun h => h.setBackend enabled⟩
  · rw [isAccepted_iff_buildable, isAccepted_iff_buildable]
    exact ⟨Buildable.swapped, Buildable.swapped⟩

end Config

end CompilerDriver
