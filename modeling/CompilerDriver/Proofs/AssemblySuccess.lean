import CompilerDriver.Proofs.AssembledPlan

/-!
# When assembly succeeds

For an accepted configuration only two things can stop assembly: an allocation
that the system refuses, and a source in a form that its pipeline does not take.
The checks that later stages make are never met. In which of the two ways it
fails is decided by what comes first.
-/
namespace CompilerDriver

/-- How assembly fails, and the workspace it leaves. -/
inductive AssemblyFailure (ctx : AssemblyContext) (w : Workspace) :
    PipelineError → Workspace → Prop where
  /-- An allocation is refused. The ones before were granted, and the sources up to the one that it
  is for are accepted. -/
  | refused {granted after : List Request} {request : Request} {error : SystemError}
      {w' : Workspace} : ctx.requests = granted ++ request :: after → w.Grants granted →
      (w.allocateAll granted).2.allocate request.name request.extension =
        (.error (.tempArtifact error), w') →
      (∀ source ∈ ctx.config.sources.take (granted.length + 1),
        source.1.AcceptsSource source.2) →
      AssemblyFailure ctx w (.tempArtifact error) w'
  /-- A source is not accepted. It is the first one, and the allocations for the sources before
  were granted. -/
  | unrecognized {before after : List (Pipeline × Path)} {p : Pipeline} {q : Path} :
      ctx.config.sources = before ++ (p, q) :: after →
      (∀ source ∈ before, source.1.AcceptsSource source.2) → ¬ p.AcceptsSource q →
      w.Grants (ctx.requests.take before.length) →
      AssemblyFailure ctx w (.unrecognizedInputFormat q p .compile)
        (w.allocateAll (ctx.requests.take before.length)).2

namespace AssemblyFailure

variable {ctx : AssemblyContext} {w w' : Workspace} {e : PipelineError}

/-- The first of several allocations that is refused makes assembly fail. -/
theorem of_allocateAll_error {requests after : List Request}
    (hr : ctx.requests = requests ++ after) (hw : w.allocateAll requests = (.error e, w'))
    (hk : ∀ source ∈ ctx.config.sources.take requests.length, source.1.AcceptsSource source.2) :
    AssemblyFailure ctx w e w' := by
  obtain ⟨granted, request, more, w₁, hsplit, hg, rfl, he⟩ := Workspace.allocateAll_error hw
  obtain ⟨error, rfl⟩ := Workspace.tempArtifact_of_allocate he
  have hle : granted.length + 1 ≤ requests.length := by
    rw [hsplit, List.length_append, List.length_cons]
    omega
  have hrequests : ctx.requests = granted ++ request :: (more ++ after) := by
    rw [hr, hsplit, List.append_assoc, List.cons_append]
  refine .refused hrequests hg he fun source hs => ?_
  exact hk source (List.take_subset_take_left _ hle hs)

end AssemblyFailure

namespace AssemblyContext

open AssemblyM

variable (ctx : AssemblyContext) {w w' : Workspace} {plan : BuildPlan} {e : PipelineError}

/-- Assembly succeeds where every source is accepted and every allocation granted. -/
theorem exists_run_eq_ok_iff (ha : StagePlan.Accepted ctx.config ctx.stages) :
    (∃ plan w', (Assembler.standard.assemble ctx.settings ctx.stages).run w = (.ok plan, w')) ↔
      (∀ source ∈ ctx.config.sources, source.1.AcceptsSource source.2) ∧
        w.Grants ctx.requests := by
  constructor
  · rintro ⟨plan, w', h⟩
    obtain ⟨hk, paths, _, _, hw, -⟩ := assembled_of_run_eq_ok ctx ha h
    exact ⟨hk, paths, by rw [hw]⟩
  · rintro ⟨hk, hg⟩
    obtain ⟨plan, h⟩ := (assemble_draws ha hk).run_of_grants hg
    exact ⟨plan, _, h⟩

/-- Assembly fails in one of two ways. -/
theorem failure_of_run_eq_error (ha : StagePlan.Accepted ctx.config ctx.stages)
    (h : (Assembler.standard.assemble ctx.settings ctx.stages).run w = (.error e, w')) :
    AssemblyFailure ctx w e w' := by
  obtain hk | ⟨before, p, q, after, hs, hk, hn⟩ := ctx.config.accepts_or_exists_first
  · have hw := (assemble_draws ha hk).of_run_error h
    exact .of_allocateAll_error (List.append_nil _).symm hw fun source hm =>
      hk source (List.mem_of_mem_take hm)
  · obtain ⟨⟨paths, hw⟩, rfl⟩ | hw := (assemble_rejects ha hs hk hn).of_run_error h
    · have hg : w.Grants (ctx.requests.take before.length) := ⟨paths, by rw [hw]⟩
      have hfailure := AssemblyFailure.unrecognized hs hk hn hg
      rwa [hw] at hfailure
    · refine .of_allocateAll_error (List.take_append_drop before.length _).symm hw
        fun source hm => hk source ?_
      have hle : (ctx.requests.take before.length).length ≤ before.length :=
        List.length_take_le _ _
      rw [hs] at hm
      have htake := List.take_subset_take_left (before ++ (p, q) :: after) hle hm
      rwa [List.take_left] at htake

end AssemblyContext

/-- For an accepted configuration, any toolchain and any workspace: when assembly succeeds, which
temporaries it has drawn then, and how it fails. -/
theorem assemble_outcome {c : Config} {stages : StagePlan} (hr : StagePlan.resolve c = .ok stages)
    (tools : Toolchain) (w : Workspace) :
    let ctx : AssemblyContext := ⟨⟨c, tools⟩, stages⟩
    let assembly := Assembler.standard.assemble ⟨c, tools⟩ stages
    ((∃ plan w', assembly.run w = (.ok plan, w')) ↔
      (∀ source ∈ c.sources, source.1.AcceptsSource source.2) ∧ w.Grants ctx.requests) ∧
    (∀ plan w', assembly.run w = (.ok plan, w') → w' = (w.allocateAll ctx.requests).2) ∧
    ∀ e w', assembly.run w = (.error e, w') → AssemblyFailure ctx w e w' := by
  intro ctx assembly
  have ha : StagePlan.Accepted ctx.config ctx.stages := StagePlan.accepted_of_resolve hr
  refine ⟨ctx.exists_run_eq_ok_iff ha, fun plan w' h => ?_, fun e w' h => ?_⟩
  · obtain ⟨-, paths, _, _, hw, -⟩ := ctx.assembled_of_run_eq_ok ha h
    rw [hw]
  · exact ctx.failure_of_run_eq_error ha h

theorem sample_accepted_and_granted :
    (∀ source ∈ Sample.config.sources, source.1.AcceptsSource source.2) ∧
      Sample.workspace.Grants
        (AssemblyContext.requests ⟨⟨Sample.config, Sample.tools⟩, Sample.stages⟩) := by
  obtain ⟨plan, hrun⟩ := Sample.exists_outcome_eq
  exact (assemble_outcome rfl Sample.tools Sample.workspace).1.mp ⟨plan, _, hrun⟩

end CompilerDriver
