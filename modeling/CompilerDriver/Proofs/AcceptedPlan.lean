import CompilerDriver.StagePlan

/-!
# Plans of accepted configurations

What planning settles once a configuration is accepted: which inputs, outputs
and databases are there, and where the backend stages and the link stage stand
in the order of the active stages. Later proofs use these facts and never the
checks or the flags.
-/
namespace CompilerDriver

theorem PipelineConfig.isActive_iff {settings : PipelineConfig} :
    settings.isActive = true ↔ settings.inputs ≠ [] := by
  rw [isActive, Bool.not_eq_true', List.isEmpty_eq_false_iff]

theorem PipelineConfig.isActive_eq_false_iff {settings : PipelineConfig} :
    settings.isActive = false ↔ settings.inputs = [] := by
  rw [isActive, Bool.not_eq_false', List.isEmpty_iff]

namespace StagePlan

/-- Up to link the stages are those that the options ask for. -/
theorem isActive_ofOptions (o : StageOptions) {s : Stage} (h : s.index < Stage.assemble.index) :
    (ofOptions o).isActive s = (requested o).get s := by
  unfold ofOptions
  split
  · cases s <;> first | rfl | exact absurd h (by decide)
  · rfl

theorem isActive_link_iff (o : StageOptions) : (ofOptions o).isActive .link = true ↔
    o.onlyCompile = false ∧ o.compileAnalyzeTransformOnly = false := by
  rw [isActive_ofOptions o (by decide)]
  simp [requested, PerStage.get]

/-- A configuration is accepted and has this plan. -/
structure Accepted (c : Config) (stages : StagePlan) : Prop where
  stages_eq : stages = ofOptions c.stages
  active : c.device.isActive = true ∨ c.host.isActive = true
  output : ∀ p, (c.pipeline p).output.isSome = (c.pipeline p).isActive
  database : stages.isActive .analyze = true ∨ stages.isActive .transform = true →
    c.database.isSome = true
  single : stages.isActive .link = false → ∀ p, (c.pipeline p).inputs.length ≤ 1

theorem eq_ofOptions_of_resolve {c : Config} {stages : StagePlan} (h : resolve c = .ok stages) :
    stages = ofOptions c.stages ∧ stages.validate c = .ok () := by
  unfold resolve at h
  cases hv : (ofOptions c.stages).validate c with
  | error e => simp [hv, bind, Except.bind] at h
  | ok u =>
    simp only [hv, bind, Except.bind, pure, Except.pure, Except.ok.injEq] at h
    exact ⟨h.symm, h ▸ hv⟩

theorem accepted_of_resolve {c : Config} {stages : StagePlan} (h : resolve c = .ok stages) :
    Accepted c stages := by
  obtain ⟨he, hv⟩ := eq_ofOptions_of_resolve h
  simp only [validate, refuse_bind_eq_ok_iff, refuse_eq_ok_iff] at hv
  obtain ⟨hactive, hdevice, hdevice', hhost', hdatabase, hhost, hmany, hmany', -⟩ := hv
  refine ⟨he, ?_, ?_, ?_, ?_⟩
  · cases hd : c.device.isActive
    · exact Or.inr (by simpa [hd] using hactive)
    · exact Or.inl rfl
  · intro p
    cases p
    · change c.device.output.isSome = c.device.isActive
      cases hd : c.device.isActive <;> cases ho : c.device.output <;> simp_all
    · change c.host.output.isSome = c.host.isActive
      cases hd : c.host.isActive <;> cases ho : c.host.output <;> simp_all
  · intro ha
    rw [← Bool.or_eq_true_iff] at ha
    rw [ha, Bool.true_and] at hdatabase
    simpa using hdatabase
  · intro hl p
    rw [hl] at hmany hmany'
    cases p
    · change c.device.inputs.length ≤ 1
      simpa using hmany
    · change c.host.inputs.length ≤ 1
      simpa using hmany'

/-- Every refusal is counted to the configuration. -/
theorem category_of_validate_error {c : Config} {stages : StagePlan} {e : PipelineError}
    (h : stages.validate c = .error e) : e.category = .configuration := by
  simp only [validate, refuse_bind_eq_error_iff, refuse_eq_error_iff] at h
  rcases h with h | ⟨-, h | ⟨-, h | ⟨-, h | ⟨-, h | ⟨-, h | ⟨-, h | ⟨-, h | ⟨-, h⟩⟩⟩⟩⟩⟩⟩⟩
  all_goals
    obtain ⟨-, rfl⟩ := h
    rfl

theorem validate_of_resolve_error {c : Config} {e : PipelineError} (h : resolve c = .error e) :
    (ofOptions c.stages).validate c = .error e := by
  unfold resolve at h
  cases hv : (ofOptions c.stages).validate c with
  | error e' =>
    simp only [hv, bind, Except.bind, Except.error.injEq] at h
    exact congrArg Except.error h
  | ok u => simp [hv, bind, Except.bind, pure, Except.pure] at h

theorem category_of_resolve_error {c : Config} {e : PipelineError} (h : resolve c = .error e) :
    e.category = .configuration :=
  category_of_validate_error (validate_of_resolve_error h)

section Order

variable {stages : StagePlan} {done rest : List Stage} {s : Stage}

theorem mem_activeStages_iff : s ∈ stages.activeStages ↔ stages.isActive s = true := by
  simp [activeStages, Stage.mem_all]

theorem pairwise_activeStages : stages.activeStages.Pairwise (·.index < ·.index) := by
  have hall : Stage.all.Pairwise (·.index < ·.index) := by decide
  exact hall.filter _

theorem index_lt_of_split (h : stages.activeStages = done ++ s :: rest) :
    (∀ r ∈ done, r.index < s.index) ∧ ∀ r ∈ rest, s.index < r.index := by
  have hp := stages.pairwise_activeStages
  rw [h, List.pairwise_append, List.pairwise_cons] at hp
  obtain ⟨-, ⟨hrest, -⟩, hdone⟩ := hp
  exact ⟨fun r hr => hdone r hr s List.mem_cons_self, hrest⟩

theorem not_mem_done_of_split (h : stages.activeStages = done ++ s :: rest) : s ∉ done :=
  fun hs => Nat.lt_irrefl _ ((index_lt_of_split h).1 s hs)

theorem isActive_of_split (h : stages.activeStages = done ++ s :: rest) :
    stages.isActive s = true :=
  mem_activeStages_iff.mp (h ▸ List.mem_append_right done List.mem_cons_self)

/-- Active stages before a stage are exactly those that come before it in order. -/
theorem mem_done_iff_of_split (h : stages.activeStages = done ++ s :: rest) {r : Stage} :
    r ∈ done ↔ stages.isActive r = true ∧ r.index < s.index := by
  constructor
  · intro hr
    exact ⟨mem_activeStages_iff.mp (h ▸ List.mem_append_left _ hr), (index_lt_of_split h).1 r hr⟩
  · rintro ⟨ha, hlt⟩
    rw [← mem_activeStages_iff, h, List.mem_append, List.mem_cons] at ha
    rcases ha with hr | rfl | hr
    · exact hr
    · exact absurd hlt (Nat.lt_irrefl _)
    · exact absurd ((index_lt_of_split h).2 r hr) (Nat.lt_asymm hlt)

theorem isLast_iff_of_split (h : stages.activeStages = done ++ s :: rest) :
    stages.isLast s = true ↔ rest = [] := by
  rw [isLast, last, beq_iff_eq, h, List.getLast?_append, List.getLast?_cons]
  cases hr : rest.getLast? with
  | none => simpa using hr
  | some r =>
    have hmem : r ∈ rest := List.mem_of_getLast? hr
    have hlt := (index_lt_of_split h).2 r hmem
    constructor
    · intro he
      obtain rfl : r = s := by simpa [hr] using he
      exact absurd hlt (Nat.lt_irrefl _)
    · rintro rfl
      cases hmem

end Order

namespace Accepted

variable {c : Config} {stages : StagePlan} {done rest : List Stage} {s : Stage}

theorem isActive_compile (h : Accepted c stages) : stages.isActive .compile = true :=
  h.stages_eq ▸ isActive_compile_ofOptions _

/-- Compilation comes first. -/
theorem done_eq_nil_iff (h : Accepted c stages) (hs : stages.activeStages = done ++ s :: rest) :
    done = [] ↔ s = .compile := by
  constructor
  · rintro rfl
    have hz : ¬ Stage.compile.index < s.index := fun hlt =>
      List.not_mem_nil ((mem_done_iff_of_split hs).mpr ⟨h.isActive_compile, hlt⟩)
    cases s <;> first | rfl | exact absurd (by decide) hz
  · rintro rfl
    refine List.eq_nil_iff_forall_not_mem.mpr fun r hr => ?_
    exact absurd ((index_lt_of_split hs).1 r hr) (Nat.not_lt_zero _)

/-- A backend stage is the last one: assembly and disassembly exclude each other. -/
theorem rest_eq_nil_of_backend (h : Accepted c stages)
    (hs : stages.activeStages = done ++ s :: rest) (hlt : Stage.link.index < s.index) :
    rest = [] := by
  refine List.eq_nil_iff_forall_not_mem.mpr fun r hr => ?_
  have hsr := (index_lt_of_split hs).2 r hr
  have hr' : stages.isActive r = true := by
    rw [← mem_activeStages_iff, hs]
    exact List.mem_append_right _ (List.mem_cons_of_mem _ hr)
  have hs' := isActive_of_split hs
  have hnot := not_assemble_and_disassemble c.stages
  rw [← h.stages_eq] at hnot
  cases s <;> cases r <;> first | exact absurd hsr (by decide) | exact absurd hlt (by decide) | skip
  exact hnot ⟨hs', hr'⟩

end Accepted

end StagePlan

end CompilerDriver
