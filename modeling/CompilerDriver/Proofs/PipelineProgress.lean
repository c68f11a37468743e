import CompilerDriver.Proofs.AcceptedPlan
import CompilerDriver.Proofs.StageDraws

/-!
# Progress of a pipeline

What is known of a pipeline between two stages: its front, the units that carry
the front on, and what has become of its combined unit. A pipeline that is ready
for a stage takes its turn there and is ready for the next one. Its turn draws
the temporaries that the configuration tells in advance, and fails only where
one of them is refused.
-/
namespace CompilerDriver

namespace Stage

theorem reads_eq_nil_iff {s : Stage} {front : List Path} : s.reads front = [] ↔ front = [] := by
  constructor
  · intro h
    rw [← s.flatten_reads front, h, List.flatten_nil]
  · rintro rfl
    exact s.reads_nil

theorem length_reads_of_ne_link {s : Stage} (h : s ≠ .link) (front : List Path) :
    (s.reads front).length = front.length := by
  rw [reads_of_ne_link h, List.length_map]

theorem length_reads_link_le (front : List Path) : (Stage.link.reads front).length ≤ 1 := by
  by_cases h : front = []
  · subst h
    exact Nat.zero_le _
  · rw [reads_link h]
    exact Nat.le_refl _

end Stage

/-- A temporary of a unit is in the form that its extension tells. -/
theorem Request.Answers.format {q path : Path} {f : Format}
    (h : Request.Answers ⟨CompilationUnit.nameOf q, f.extension⟩ path) :
    Format.ofPath? path = some f := by
  obtain ⟨fs, token, dir, rfl⟩ := h
  rw [token.absolute_path]
  exact Format.ofPath?_temporary token _ (CompilationUnit.slash_not_mem_nameOf q) f

namespace StageAssembler

/-- The standard way to assemble a stage. -/
def ofStage : Stage → StageAssembler
  | .compile => .perUnit .compile
  | .analyze => .perUnit .analyze
  | .transform => .perUnit .transform
  | .link => .link
  | .assemble => .carrier .assemble
  | .disassemble => .carrier .disassemble

variable {s : Stage}

theorem ofStage_of_lt_link (h : s.index < Stage.link.index) : ofStage s = .perUnit s := by
  cases s <;> first | rfl | exact absurd h (by decide)

theorem ofStage_of_link_lt (h : Stage.link.index < s.index) : ofStage s = .carrier s := by
  cases s <;> first | rfl | exact absurd h (by decide)

/-- A pipeline with units takes its turn, and one without is passed over. -/
def visit (a : StageAssembler) (ctx : AssemblyContext) (p : Pipeline) (plan : BuildPlan) :
    AssemblyM BuildPlan :=
  if (plan.pipeline p).isActive then a.run ctx p plan else pure plan

theorem runPipelines_eq (a : StageAssembler) (ctx : AssemblyContext) (plan : BuildPlan) :
    a.runPipelines ctx plan = (do
      let mid ← a.visit ctx .device plan
      a.visit ctx .host mid) := by
  simp only [runPipelines, Pipeline.all, List.foldlM_cons, List.foldlM_nil, bind_pure]
  rfl

end StageAssembler

theorem Stage.index_cases (s : Stage) :
    s.index < Stage.link.index ∨ s = .link ∨ Stage.link.index < s.index := by
  cases s <;> decide

namespace AssemblyContext

open AssemblyM CompilationUnit

variable (ctx : AssemblyContext) (s : Stage) (p : Pipeline)

/-- The names of the units that are given an output at a stage. -/
def unitNames : List String :=
  if s = .link then (ctx.config.pipeline p).output.toList.map nameOf
  else (ctx.config.pipeline p).inputs.map nameOf

/-- The temporaries that a pipeline asks for at a stage. -/
def requestsAt : List Request :=
  requested (ctx.finalFor s p) (ctx.tempFormat s).extension (ctx.unitNames s p)

/-- The outputs of the actions of a turn: the configured one at the last stage, and the paths
drawn for them before. -/
def Outputs (paths : List Path) (acts : List Action) : Prop :=
  if ctx.stages.isLast s then
    paths = [] ∧ acts.map (·.binding.output) = (ctx.config.pipeline p).output.toList
  else acts.map (·.binding.output) = paths

/-- Each artifact of a front is in a form that the stage accepts. -/
def Readable (p : Pipeline) (s : Stage) (front : List Path) : Prop :=
  ∀ q ∈ front, (ActionKind.dispatch p s (Format.ofPath? q)).isSome = true

/-- A pipeline after some stages. -/
structure Ready (done : List Stage) (plan : BuildPlan) (front : List Path) : Prop where
  identity : (plan.pipeline p).units.map (·.identity) =
    (ctx.config.pipeline p).inputs.map fun q => (some q, nameOf q)
  next : (plan.pipeline p).carriers.map (·.nextInput) = front.map some
  current : done ≠ [] → (plan.pipeline p).carriers.map (·.current) = front.map some
  combined : (plan.pipeline p).combined.isSome =
    (decide (.link ∈ done) && (ctx.config.pipeline p).isActive)
  isEmpty : front.isEmpty = !(ctx.config.pipeline p).isActive
  single : .link ∈ done ∨ ctx.stages.isActive .link = false → front.length ≤ 1

theorem isIntermediate_tempFormat : (ctx.tempFormat s).isIntermediate = true := by
  cases s <;> first
    | rfl
    | (simp only [tempFormat]; split <;> rfl)

variable {ctx s p} {done rest : List Stage} {plan plan' : BuildPlan} {front : List Path}
  {acts : List Action} {paths : List Path} {w : Workspace}

theorem outputs_iff_of_isLast (hl : ctx.stages.isLast s = true) :
    ctx.Outputs s p paths acts ↔
      paths = [] ∧ acts.map (·.binding.output) = (ctx.config.pipeline p).output.toList := by
  rw [Outputs, if_pos hl]

theorem outputs_iff_of_not_isLast (hl : ctx.stages.isLast s = false) :
    ctx.Outputs s p paths acts ↔ acts.map (·.binding.output) = paths := by
  rw [Outputs, hl, if_neg Bool.false_ne_true]

theorem mem_unitNames {name : String} (h : name ∈ ctx.unitNames s p) : ∃ q, name = nameOf q := by
  unfold unitNames at h
  split at h
  all_goals
    obtain ⟨q, -, rfl⟩ := List.mem_map.mp h
    exact ⟨q, rfl⟩

theorem mem_requestsAt {r : Request} (h : r ∈ ctx.requestsAt s p) :
    ∃ q, r = ⟨nameOf q, (ctx.tempFormat s).extension⟩ := by
  unfold requestsAt requested at h
  cases hf : ctx.finalFor s p with
  | some path => rw [hf] at h; cases h
  | none =>
    rw [hf] at h
    obtain ⟨name, hname, rfl⟩ := List.mem_map.mp h
    obtain ⟨q, rfl⟩ := mem_unitNames hname
    exact ⟨q, rfl⟩

theorem requestsAt_eq_nil (ha : StagePlan.Accepted ctx.config ctx.stages)
    (hp : (ctx.config.pipeline p).isActive = false) : ctx.requestsAt s p = [] := by
  have ho : (ctx.config.pipeline p).output = none := by
    rw [← Option.isNone_iff_eq_none, ← Option.not_isSome, ha.output p, hp]
    rfl
  have hn : ctx.unitNames s p = [] := by
    unfold unitNames
    rw [ho, PipelineConfig.isActive_eq_false_iff.mp hp]
    split <;> rfl
  rw [requestsAt, hn, requested_nil]

/-- What is drawn for a stage can be read at every other one. -/
theorem readable_of_answers (h : List.Forall₂ Request.Answers (ctx.requestsAt s p) paths)
    (p' : Pipeline) (s' : Stage) : Readable p' s' paths := by
  intro path hpath
  obtain ⟨i, hi, rfl⟩ := List.getElem_of_mem hpath
  have hi' : i < (ctx.requestsAt s p).length := h.length_eq ▸ hi
  have ha := h.get hi' hi
  obtain ⟨q, hq⟩ := mem_requestsAt (List.getElem_mem hi')
  rw [List.get_eq_getElem, hq] at ha
  have hf : Format.ofPath? paths[i] = some (ctx.tempFormat s) := Request.Answers.format ha
  rw [hf, ActionKind.dispatch_intermediate p' s' (ctx.isIntermediate_tempFormat s)]
  rfl

theorem map_nextInput_of_map_current {units : List CompilationUnit}
    (h : units.map (·.current) = front.map some) :
    units.map (·.nextInput) = front.map some := by
  rw [← h]
  refine List.map_congr_left fun u hu => ?_
  obtain ⟨q, -, hq⟩ := List.mem_map.mp (h ▸ List.mem_map_of_mem hu)
  rw [nextInput, ← hq]
  rfl

namespace Ready

theorem isEmpty_units (h : Ready ctx p done plan front) :
    (plan.pipeline p).units.isEmpty = (ctx.config.pipeline p).inputs.isEmpty := by
  have hl := congrArg List.length h.identity
  rw [List.length_map, List.length_map] at hl
  rw [Bool.eq_iff_iff, List.isEmpty_iff_length_eq_zero, List.isEmpty_iff_length_eq_zero, hl]

theorem isActive (h : Ready ctx p done plan front) :
    (plan.pipeline p).isActive = (ctx.config.pipeline p).isActive :=
  congrArg not h.isEmpty_units

theorem map_name (h : Ready ctx p done plan front) :
    (plan.pipeline p).units.map (·.name) = (ctx.config.pipeline p).inputs.map nameOf := by
  have hn := congrArg (List.map Prod.snd) h.identity
  rwa [List.map_map, List.map_map] at hn

theorem combined_eq_none (h : Ready ctx p done plan front)
    (hl : .link ∉ done ∨ (ctx.config.pipeline p).isActive = false) :
    (plan.pipeline p).combined = none := by
  rw [← Option.isNone_iff_eq_none, ← Option.not_isSome, h.combined]
  rcases hl with hl | hl
  · rw [decide_eq_false hl]
    rfl
  · rw [hl, Bool.and_false]
    rfl

theorem next_units (h : Ready ctx p done plan front) (hl : .link ∉ done) :
    (plan.pipeline p).units.map (·.nextInput) = front.map some := by
  rw [← PipelineUnits.carriers_of_combined_eq_none (h.combined_eq_none (Or.inl hl)), h.next]

theorem current_units (h : Ready ctx p done plan front) (hl : .link ∉ done) (hd : done ≠ []) :
    (plan.pipeline p).units.map (·.current) = front.map some := by
  rw [← PipelineUnits.carriers_of_combined_eq_none (h.combined_eq_none (Or.inl hl)), h.current hd]

theorem ne_nil (h : Ready ctx p done plan front) (ha : (ctx.config.pipeline p).isActive = true) :
    front ≠ [] := by
  have he := h.isEmpty
  rw [ha] at he
  exact fun hf => by rw [hf] at he; cases he

theorem eq_nil (h : Ready ctx p done plan front) (ha : (ctx.config.pipeline p).isActive = false) :
    front = [] := by
  have he := h.isEmpty
  rw [ha] at he
  exact List.isEmpty_iff.mp he

/-- Past the link stage at most one artifact is left. -/
theorem length_le_one (h : Ready ctx p done plan front)
    (hs : ctx.stages.activeStages = done ++ s :: rest)
    (hl : ctx.stages.isActive .link = true → Stage.link.index < s.index) : front.length ≤ 1 := by
  refine h.single ?_
  cases ha : ctx.stages.isActive .link with
  | false => exact Or.inr rfl
  | true => exact Or.inl ((StagePlan.mem_done_iff_of_split hs).mpr ⟨ha, hl ha⟩)

/-- A pipeline without units is passed over. -/
theorem idle_draws (h : Ready ctx p done plan front)
    (ha : StagePlan.Accepted ctx.config ctx.stages)
    (hp : (ctx.config.pipeline p).isActive = false) :
    Draws (pure plan) (ctx.requestsAt s p) w (ctx.TakesTurn s p front plan) := by
  have hi : (ctx.config.pipeline p).inputs = [] := PipelineConfig.isActive_eq_false_iff.mp hp
  have hu : (plan.pipeline p).units = [] := by
    rw [← List.isEmpty_iff, h.isEmpty_units, hi]
    rfl
  rw [requestsAt_eq_nil ha hp, h.eq_nil hp]
  exact draws_pure ⟨[], Turn.idle hu (h.combined_eq_none (Or.inr hp)), assigned_nil⟩

/-- At a backend stage one unit carries the pipeline, and writes its output. -/
theorem backend_draws (h : Ready ctx p done plan front)
    (ha : StagePlan.Accepted ctx.config ctx.stages)
    (hs : ctx.stages.activeStages = done ++ s :: rest) (hk : Readable p s front)
    (hp : (ctx.config.pipeline p).isActive = true) (hlt : Stage.link.index < s.index)
    (hd : s = .analyze ∨ s = .transform → ctx.config.database.isSome = true) :
    Draws (ctx.carrier s p plan) (ctx.requestsAt s p) w (ctx.TakesTurn s p front plan) := by
  obtain ⟨output, ho⟩ := Option.isSome_iff_exists.mp ((ha.output p).trans hp)
  have hne : s ≠ .link := fun he => Nat.lt_irrefl _ (he ▸ hlt)
  have hlast : ctx.stages.isLast s = true :=
    (StagePlan.isLast_iff_of_split hs).mpr (ha.rest_eq_nil_of_backend hs hlt)
  have hlen : front.length = 1 := Nat.le_antisymm (h.length_le_one hs fun _ => hlt)
    (List.length_pos_iff.mpr (h.ne_nil hp))
  obtain ⟨q, rfl⟩ := List.length_eq_one_iff.mp hlen
  obtain ⟨u, hu, hq⟩ := List.map_eq_singleton_iff.mp h.next
  have hfinal : ctx.finalFor s p = some output := by rw [finalFor, if_pos hlast, ho]
  rw [requestsAt, hfinal]
  exact carrier_draws hne hlast ho hu hq (hk q List.mem_cons_self) hd

/-- A pipeline takes its turn at the next stage. -/
theorem step_draws (h : Ready ctx p done plan front)
    (ha : StagePlan.Accepted ctx.config ctx.stages)
    (hs : ctx.stages.activeStages = done ++ s :: rest) (hk : Readable p s front) :
    Draws ((StageAssembler.ofStage s).visit ctx p plan) (ctx.requestsAt s p) w
      (ctx.TakesTurn s p front plan) := by
  unfold StageAssembler.visit
  rw [h.isActive]
  cases hp : (ctx.config.pipeline p).isActive with
  | false =>
    rw [if_neg Bool.false_ne_true]
    exact h.idle_draws ha hp
  | true =>
    rw [if_pos rfl]
    obtain ⟨output, ho⟩ := Option.isSome_iff_exists.mp ((ha.output p).trans hp)
    have hdatabase : s = .analyze ∨ s = .transform → ctx.config.database.isSome = true := by
      rintro (rfl | rfl)
      · exact ha.database (Or.inl (StagePlan.isActive_of_split hs))
      · exact ha.database (Or.inr (StagePlan.isActive_of_split hs))
    -- Up to link the units carry the pipeline each by itself; a backend stage finds one carrier.
    obtain hlt | rfl | hlt := s.index_cases
    · have hne : s ≠ .link := fun he => Nat.lt_irrefl _ (he ▸ hlt)
      have hdone : .link ∉ done := fun hm =>
        Nat.lt_asymm hlt ((StagePlan.index_lt_of_split hs).1 _ hm)
      rw [StageAssembler.ofStage_of_lt_link hlt, requestsAt, unitNames, if_neg hne, ← h.map_name]
      exact perUnit_draws hne ho (h.combined_eq_none (Or.inl hdone)) (h.next_units hdone) hk
        hdatabase
    · have hdone : .link ∉ done := StagePlan.not_mem_done_of_split hs
      have hd : done ≠ [] := fun he => by cases (ha.done_eq_nil_iff hs).mp he
      rw [requestsAt, unitNames, if_pos rfl, ho]
      exact link_draws ho (h.combined_eq_none (Or.inl hdone)) (h.current_units hdone hd)
        (h.ne_nil hp) hk
    · rw [StageAssembler.ofStage_of_link_lt hlt]
      exact h.backend_draws ha hs hk hp hlt hdatabase

/-- A turn makes one action, where there is one artifact left to read. -/
theorem length_acts_eq (h : Ready ctx p done plan front)
    (ht : Turn ctx.settings p s front plan acts plan')
    (hl : s = .link ∨ front.length ≤ 1) :
    acts.length = if (ctx.config.pipeline p).isActive then 1 else 0 := by
  have hlen : acts.length = (s.reads front).length := by
    rw [← ht.row.inputs, List.length_map]
  rw [hlen]
  cases ha : (ctx.config.pipeline p).isActive with
  | false =>
    rw [h.eq_nil ha, Stage.reads_nil]
    rfl
  | true =>
    have hne := h.ne_nil ha
    rw [if_pos rfl]
    by_cases hs : s = .link
    · rw [hs, Stage.reads_link hne]
      rfl
    · rw [Stage.length_reads_of_ne_link hs]
      exact Nat.le_antisymm (hl.resolve_left hs) (List.length_pos_iff.mpr hne)

/-- After its turn a pipeline is ready for the next stage. -/
theorem after (h : Ready ctx p done plan front)
    (ht : Turn ctx.settings p s front plan acts plan') :
    Ready ctx p (done ++ [s]) plan' (acts.map (·.binding.output)) := by
  have hcurrent : (plan'.pipeline p).carriers.map (·.current) =
      (acts.map (·.binding.output)).map some := by rw [ht.current, List.map_map]; rfl
  have hlen : acts.length = (s.reads front).length := by rw [← ht.row.inputs, List.length_map]
  refine ⟨ht.identity.trans h.identity, map_nextInput_of_map_current hcurrent, fun _ => hcurrent,
    ?_, ?_, ?_⟩
  · rw [ht.combined, h.combined, h.isEmpty, Bool.not_not, ← Bool.and_or_distrib_right]
    congr 1
    rw [Bool.eq_iff_iff, Bool.or_eq_true, decide_eq_true_iff, decide_eq_true_iff,
      decide_eq_true_iff, List.mem_append, List.mem_singleton, eq_comm (a := s)]
  · rw [← h.isEmpty, Bool.eq_iff_iff, List.isEmpty_iff, List.isEmpty_iff, List.map_eq_nil_iff,
      ← List.length_eq_zero_iff, hlen, List.length_eq_zero_iff, Stage.reads_eq_nil_iff]
  · intro hl
    rw [List.length_map, hlen]
    by_cases hs : s = .link
    · rw [hs]
      exact Stage.length_reads_link_le front
    · rw [Stage.length_reads_of_ne_link hs]
      refine h.single (hl.imp_left fun hm => ?_)
      exact (List.mem_append.mp hm).resolve_right fun h' => hs (List.mem_singleton.mp h').symm

/-- At the last stage each pipeline with inputs makes one action, which writes its output. -/
theorem outputs (h : Ready ctx p done plan front) (ha : StagePlan.Accepted ctx.config ctx.stages)
    (hs : ctx.stages.activeStages = done ++ s :: rest)
    (ht : Turn ctx.settings p s front plan acts plan')
    (hassigned : Assigned (ctx.finalFor s p) paths acts) : ctx.Outputs s p paths acts := by
  cases hlast : ctx.stages.isLast s with
  | false =>
    rw [finalFor, hlast, if_neg Bool.false_ne_true] at hassigned
    exact (outputs_iff_of_not_isLast hlast).mpr hassigned
  | true =>
    obtain rfl := (StagePlan.isLast_iff_of_split hs).mp hlast
    have hl : s = .link ∨ front.length ≤ 1 := by
      by_cases hlink : s = .link
      · exact Or.inl hlink
      · refine Or.inr (h.length_le_one hs fun hact => ?_)
        have hm : .link ∈ done ++ [s] := hs ▸ StagePlan.mem_activeStages_iff.mpr hact
        refine (StagePlan.index_lt_of_split hs).1 _ ((List.mem_append.mp hm).resolve_right ?_)
        exact fun h' => hlink (List.mem_singleton.mp h').symm
    have hlen := h.length_acts_eq ht hl
    have hsome := ha.output p
    rw [finalFor, if_pos hlast] at hassigned
    rw [outputs_iff_of_isLast hlast]
    cases ho : (ctx.config.pipeline p).output with
    | none =>
      rw [ho] at hsome hassigned
      rw [← hsome] at hlen
      obtain rfl := List.length_eq_zero_iff.mp hlen
      exact ⟨hassigned.symm, rfl⟩
    | some output =>
      rw [ho] at hsome hassigned
      rw [← hsome] at hlen
      obtain ⟨a, rfl⟩ := List.length_eq_one_iff.mp hlen
      exact ⟨hassigned.1, congrArg ([·]) (hassigned.2 a List.mem_cons_self)⟩

/-- The turn of a pipeline, with the outputs of its actions. They can be read at every later
stage. -/
theorem turn_draws (h : Ready ctx p done plan front)
    (ha : StagePlan.Accepted ctx.config ctx.stages)
    (hs : ctx.stages.activeStages = done ++ s :: rest) (hk : Readable p s front) :
    Draws ((StageAssembler.ofStage s).visit ctx p plan) (ctx.requestsAt s p) w
      fun paths plan' => ∃ acts, Turn ctx.settings p s front plan acts plan' ∧
        ctx.Outputs s p paths acts ∧
        (ctx.stages.isLast s = false → ∀ s', Readable p s' (acts.map (·.binding.output))) := by
  refine (h.step_draws ha hs hk).mono ?_
  rintro paths plan' hanswers ⟨acts, ht, hassigned⟩
  have hout := h.outputs ha hs ht hassigned
  refine ⟨acts, ht, hout, fun hlast s' => ?_⟩
  rw [(outputs_iff_of_not_isLast hlast).mp hout]
  exact readable_of_answers hanswers p s'

theorem of_pipeline_eq (h : Ready ctx p done plan front)
    (he : plan'.pipeline p = plan.pipeline p) : Ready ctx p done plan' front :=
  ⟨he ▸ h.identity, he ▸ h.next, he ▸ h.current, he ▸ h.combined, h.isEmpty, h.single⟩

end Ready

end AssemblyContext

end CompilerDriver
