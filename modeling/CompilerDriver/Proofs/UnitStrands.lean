import CompilerDriver.Proofs.Truncation
import Mathlib.Data.List.Flatten

/-!
# The strand of one unit

A run that comes to link has rounds of units first, and in each of them the
pipeline has one action for each input. So what stands at one place of these
rounds is a strand by itself: it starts from one source, and its temporaries
answer requests that this source tells. Link reads what the units have come to,
in the order of the inputs.
-/
namespace CompilerDriver

/-- What a unit of a pipeline writes before link, in order. -/
def BuildPlan.unlinkedAt (plan : BuildPlan) (p : Pipeline) (i : Nat) : List Path :=
  Stage.beforeLink.flatMap fun s => ((plan.actionsOf p s).map (·.binding.output))[i]?.toList

/-- A link action reads, place by place, what the units have come to. -/
structure LinksUnits (plan : BuildPlan) (p : Pipeline) (a : Action) : Prop where
  inputs : ∀ i, a.binding.inputs[i]? = (plan.unlinkedAt p i).getLast?
  command : a.command = ⟨a.template.program,
    Utf8.encode "-o" :: a.binding.output.bytes :: a.binding.inputs.map Path.bytes ++
      a.template.trailing⟩

namespace Round

/-- What stands at one place in the rows of a round. -/
def pick (r : Round) (i : Nat) : Round := ⟨r.stage, fun p => (r.row p)[i]?.toList⟩

@[simp] theorem row_pick (r : Round) (i : Nat) (p : Pipeline) :
    (r.pick i).row p = (r.row p)[i]?.toList := rfl

theorem mem_row_of_mem_pick {r : Round} {i : Nat} {p : Pipeline} {a : Action}
    (h : a ∈ (r.pick i).row p) : a ∈ r.row p :=
  List.mem_of_getElem? (Option.mem_toList.mp h)

theorem outputs_pick (r : Round) (i : Nat) (p : Pipeline) :
    (r.pick i).outputs p = (r.outputs p)[i]?.toList := by
  rw [outputs, outputs, List.getElem?_map, row_pick]
  cases (r.row p)[i]? <;> rfl

end Round

/-- At a stage of units, each place is a row by itself. -/
theorem Row.pick {settings : BuildSettings} {p : Pipeline} {s : Stage} {front : List Path}
    {actions : List Action} (h : Row settings p s front actions) (hs : s ≠ .link) (i : Nat) :
    Row settings p s front[i]?.toList actions[i]?.toList where
  inputs := by
    have hi := congrArg (·[i]?) h.inputs
    rw [Stage.reads_of_ne_link hs] at hi ⊢
    rw [List.getElem?_map, List.getElem?_map] at hi
    cases ha : actions[i]? with
    | none =>
      rw [ha, Option.map_none, eq_comm, Option.map_eq_none_iff] at hi
      rw [hi]
      rfl
    | some a =>
      rw [ha, Option.map_some, eq_comm, Option.map_eq_some_iff] at hi
      obtain ⟨q, hq, hqa⟩ := hi
      rw [hq]
      exact congrArg ([·]) hqa.symm
  kind a ha := h.kind a (List.mem_of_getElem? (Option.mem_toList.mp ha))
  built a ha := h.built a (List.mem_of_getElem? (Option.mem_toList.mp ha))

/-- And the rounds up to link are a strand at each place. -/
theorem Strand.pick {settings : BuildSettings} {p : Pipeline} {front : List Path}
    {rounds : List Round} (h : Strand settings p front rounds)
    (hs : ∀ r ∈ rounds, r.stage ≠ .link) (i : Nat) :
    Strand settings p front[i]?.toList (rounds.map (·.pick i)) := by
  induction h with
  | nil => exact .nil
  | @cons _ r _ hrow _ ih =>
    obtain ⟨hr, hrest⟩ := List.forall_mem_cons.mp hs
    refine .cons (hrow.pick hr i) ?_
    rw [Round.outputs_pick]
    exact ih hrest

/-- A run that comes to link: the rounds of the units, the round of link, and what follows. -/
structure LinkedIn (fs : FileSystem) (dir : Path) (ctx : AssemblyContext) (plan : BuildPlan)
    (paths : List Path) (units : List Round) (link : Round) (more : List Round) : Prop where
  run : ∃ before final, AssembledIn fs dir ctx plan paths before final ∧
    before ++ [final] = units ++ link :: more
  units : units.map (·.stage) = Stage.beforeLink.filter ctx.stages.isActive
  link : link.stage = .link

theorem AssembledIn.exists_linkedIn {fs : FileSystem} {dir : Path} {ctx : AssemblyContext}
    {plan : BuildPlan} {paths : List Path} {before : List Round} {final : Round}
    (h : AssembledIn fs dir ctx plan paths before final)
    (hlink : ctx.stages.isActive .link = true) :
    ∃ units link more, LinkedIn fs dir ctx plan paths units link more := by
  obtain ⟨rest, hactive⟩ := StagePlan.exists_activeStages_link hlink
  obtain ⟨units, tail, hsplit, hunits, htail⟩ :=
    List.map_eq_append_iff.mp (h.stages.trans hactive)
  obtain ⟨link, more, rfl, hl, -⟩ := List.map_eq_cons_iff.mp htail
  exact ⟨units, link, more, ⟨before, final, h, hsplit⟩, hunits, hl⟩

namespace LinkedIn

variable {fs : FileSystem} {dir : Path} {ctx : AssemblyContext} {plan : BuildPlan}
  {paths : List Path} {units more : List Round} {link r : Round} {p : Pipeline} {i : Nat}
  {q : Path}

section OneRun

variable (h : LinkedIn fs dir ctx plan paths units link more)

include h

theorem stage_ne_link (hr : r ∈ units) : r.stage ≠ .link := by
  have hm : r.stage ∈ Stage.beforeLink.filter ctx.stages.isActive :=
    h.units ▸ List.mem_map_of_mem hr
  intro he
  rw [he, List.mem_filter] at hm
  exact absurd hm.1 (by decide)

/-- No round of units is the last one. -/
theorem exists_before : ∃ before final later, AssembledIn fs dir ctx plan paths before final ∧
    before = units ++ later ∧ link :: more = later ++ [final] := by
  obtain ⟨before, final, hrun, hsplit⟩ := h.run
  obtain ⟨later, last, hlater⟩ :=
    (List.eq_nil_or_concat' (link :: more)).resolve_left (List.cons_ne_nil _ _)
  rw [hlater, ← List.append_assoc] at hsplit
  obtain ⟨hbefore, hlast⟩ := List.append_inj' hsplit rfl
  obtain rfl := List.singleton_inj.mp hlast
  exact ⟨before, final, later, hrun, hbefore, hlater⟩

theorem units_ne_nil : units ≠ [] := by
  obtain ⟨before, final, hrun, -⟩ := h.run
  rintro rfl
  have hm : Stage.compile ∈ Stage.beforeLink.filter ctx.stages.isActive :=
    List.mem_filter.mpr ⟨List.mem_cons_self, hrun.accepted.isActive_compile⟩
  rw [← h.units] at hm
  cases hm

theorem stages_eq : plan.stages = ctx.stages := by
  obtain ⟨before, final, hrun, -⟩ := h.run
  exact hrun.rounds.stages_eq

theorem actionsOf_of_mem (hr : r ∈ units ++ link :: more) (p : Pipeline) :
    plan.actionsOf p r.stage = r.row p := by
  obtain ⟨before, final, hrun, hsplit⟩ := h.run
  exact hrun.actionsOf_of_mem (hsplit ▸ hr) p

theorem actionsOf_link (p : Pipeline) : plan.actionsOf p .link = link.row p := by
  rw [← h.link]
  exact h.actionsOf_of_mem (List.mem_append_right _ List.mem_cons_self) p

/-- The temporary of a unit at a stage answers a request that the source and the stage tell. -/
theorem exists_output (hr : r ∈ units) (hq : (ctx.config.pipeline p).inputs[i]? = some q) :
    ∃ out, (r.outputs p)[i]? = some out ∧ Request.AnswersIn fs dir
      ⟨CompilationUnit.nameOf q, (ctx.tempFormat r.stage).extension⟩ out := by
  obtain ⟨before, final, later, hrun, rfl, -⟩ := h.exists_before
  have hr' : r ∈ units ++ later := List.mem_append_left _ hr
  have hdrawn := hrun.forall₂_outputs hrun.answers hr' p
  have hrequest : (ctx.requestsAt r.stage p)[i]? =
      some ⟨CompilationUnit.nameOf q, (ctx.tempFormat r.stage).extension⟩ := by
    rw [AssemblyContext.requestsAt, AssemblyContext.finalFor, hrun.isLast_before hr',
      if_neg Bool.false_ne_true, AssemblyContext.unitNames, if_neg (h.stage_ne_link hr),
      AssemblyContext.requested, List.map_map, List.getElem?_map, hq]
    rfl
  obtain ⟨hi, hget⟩ := List.getElem?_eq_some_iff.mp hrequest
  have hi' : i < (r.outputs p).length := hdrawn.length_eq ▸ hi
  have hanswer := hdrawn.get hi hi'
  rw [List.get_eq_getElem, hget] at hanswer
  exact ⟨_, List.getElem?_eq_getElem hi', hanswer⟩

theorem exists_action (hr : r ∈ units) (hq : (ctx.config.pipeline p).inputs[i]? = some q) :
    ∃ a, (r.row p)[i]? = some a := by
  obtain ⟨out, hout, -⟩ := h.exists_output hr hq
  rw [Round.outputs, List.getElem?_map, Option.map_eq_some_iff] at hout
  obtain ⟨a, ha, -⟩ := hout
  exact ⟨a, ha⟩

theorem length_outputs (hr : r ∈ units) (p : Pipeline) :
    (r.outputs p).length = (ctx.config.pipeline p).inputs.length := by
  obtain ⟨before, final, later, hrun, rfl, -⟩ := h.exists_before
  have hr' : r ∈ units ++ later := List.mem_append_left _ hr
  rw [← hrun.length_outputs hr', AssemblyContext.length_requestsAt (hrun.isLast_before hr'),
    AssemblyContext.unitNames, if_neg (h.stage_ne_link hr), List.length_map]

theorem exists_round {s : Stage} (hs : s ∈ Stage.beforeLink)
    (hactive : ctx.stages.isActive s = true) : ∃ r ∈ units, r.stage = s := by
  have hm : s ∈ units.map (·.stage) := by
    rw [h.units]
    exact List.mem_filter.mpr ⟨hs, hactive⟩
  exact List.mem_map.mp hm

theorem length_actionsOf {s : Stage} (hs : s ∈ Stage.beforeLink)
    (hactive : ctx.stages.isActive s = true) (p : Pipeline) :
    (plan.actionsOf p s).length = (ctx.config.pipeline p).inputs.length := by
  obtain ⟨r, hr, rfl⟩ := h.exists_round hs hactive
  rw [h.actionsOf_of_mem (List.mem_append_left _ hr), ← h.length_outputs hr p, Round.outputs,
    List.length_map]

theorem unlinkedAt_eq (p : Pipeline) (i : Nat) :
    plan.unlinkedAt p i = units.flatMap fun r => (r.pick i).outputs p := by
  obtain ⟨before, final, hrun, hsplit⟩ := h.run
  have hnil : ∀ s, ctx.stages.isActive s = false →
      ((plan.actionsOf p s).map (·.binding.output))[i]?.toList = [] := fun s hs => by
    rw [hrun.actionsOf_eq_nil hs]
    rfl
  rw [BuildPlan.unlinkedAt, ← StagePlan.flatMap_filter_isActive hnil, ← h.units, List.flatMap_map]
  refine List.flatMap_congr fun r hr => ?_
  rw [h.actionsOf_of_mem (List.mem_append_left _ hr), Round.outputs_pick]
  rfl

theorem nodup_unlinkedAt (p : Pipeline) (i : Nat) : (plan.unlinkedAt p i).Nodup := by
  obtain ⟨before, final, later, hrun, rfl, -⟩ := h.exists_before
  have hall := hrun.nodup_temporariesOf hrun.nodup p
  rw [hrun.temporariesOf_eq, List.flatMap_append] at hall
  rw [h.unlinkedAt_eq]
  refine (hall.sublist (List.sublist_append_left _ _)).sublist ?_
  refine List.Sublist.flatMap_right _ fun r _ => ?_
  rw [Round.outputs_pick]
  cases hout : (r.outputs p)[i]? with
  | none => exact List.nil_sublist _
  | some out => exact List.singleton_sublist.mpr (List.mem_of_getElem? hout)

theorem strand_units (p : Pipeline) : Strand ctx.settings p (ctx.sourcePaths p) units := by
  obtain ⟨before, final, hrun, hsplit⟩ := h.run
  have hall := hrun.strand p
  rw [hsplit] at hall
  exact hall.of_append

/-- Link reads what the last units have written. -/
theorem exists_last : ∃ init last, units = init ++ [last] ∧
    ∀ p, Row ctx.settings p .link (last.outputs p) (link.row p) := by
  obtain ⟨before, final, hrun, hsplit⟩ := h.run
  obtain ⟨init, last, rfl⟩ := units.eq_nil_or_concat'.resolve_left h.units_ne_nil
  refine ⟨init, last, rfl, fun p => ?_⟩
  have hrow := hrun.rounds.row hsplit p
  rwa [Rounds.frontAfter, List.getLast?_concat, h.link] at hrow

/-- Place by place, link reads what the units have come to. -/
theorem inputs_link {a : Action} (ha : a ∈ link.row p) (i : Nat) :
    a.binding.inputs[i]? = (plan.unlinkedAt p i).getLast? := by
  obtain ⟨init, last, rfl, hrow⟩ := h.exists_last
  rw [(hrow p).inputs_eq_front ha, h.unlinkedAt_eq, List.flatMap_append, List.flatMap_singleton,
    Round.outputs_pick]
  cases ho : (last.outputs p)[i]? with
  | some out => rw [Option.toList_some, List.getLast?_concat]
  | none =>
    -- A place that the last units do not have, no unit has had.
    have hlen : (last.outputs p).length ≤ i := List.getElem?_eq_none_iff.mp ho
    have hnil : init.flatMap (fun r => (r.pick i).outputs p) = [] := by
      refine List.flatMap_eq_nil_iff.mpr fun r hr => ?_
      rw [h.length_outputs (List.mem_append_right _ List.mem_cons_self),
        ← h.length_outputs (List.mem_append_left _ hr)] at hlen
      rw [Round.outputs_pick, List.getElem?_eq_none hlen]
      rfl
    rw [hnil]
    rfl

/-- A pipeline with inputs has one link action. -/
theorem exists_row_link (hp : (ctx.config.pipeline p).inputs ≠ []) : ∃ a, link.row p = [a] := by
  obtain ⟨init, last, rfl, hrow⟩ := h.exists_last
  have hne : last.outputs p ≠ [] := by
    intro hnil
    have hlen := h.length_outputs (List.mem_append_right _ List.mem_cons_self) p
    rw [hnil, List.length_nil, eq_comm, List.length_eq_zero_iff] at hlen
    exact hp hlen
  have hlen := (hrow p).length_eq
  rw [Stage.reads_link hne] at hlen
  exact List.length_eq_one_iff.mp hlen

theorem length_inputs_link {a : Action} (ha : a ∈ link.row p) :
    a.binding.inputs.length = (ctx.config.pipeline p).inputs.length := by
  obtain ⟨init, last, rfl, hrow⟩ := h.exists_last
  rw [(hrow p).inputs_eq_front ha,
    h.length_outputs (List.mem_append_right _ List.mem_cons_self)]

theorem kind_link {a : Action} (ha : a ∈ link.row p) :
    a.kind = ActionKind.ofIntermediate p .link := by
  obtain ⟨_, _, rfl, hrow⟩ := h.exists_last
  obtain ⟨q, hq⟩ := List.exists_mem_of_ne_nil _ ((hrow p).inputs_ne_nil ha)
  have hk := (hrow p).kind a ha q hq
  have hsome : (ActionKind.dispatch p .link (Format.ofPath? q)).isSome = true := by
    rw [hk]
    rfl
  rw [ActionKind.dispatch_of_ne_compile (by decide) hsome, Option.some.injEq] at hk
  exact hk.symm

theorem exists_template_link {a : Action} (ha : a ∈ link.row p) : ∃ fs',
    ctx.settings.template fs' (ActionKind.ofIntermediate p .link) = .ok a.template := by
  obtain ⟨_, _, rfl, hrow⟩ := h.exists_last
  rw [← h.kind_link ha]
  exact ((hrow p).built a ha).template

/-- The command of link names its output, its inputs, and then what the settings tell. -/
theorem linksUnits {a : Action} (ha : a ∈ link.row p) : LinksUnits plan p a where
  inputs := h.inputs_link ha
  command := by
    obtain ⟨fs', ht⟩ := h.exists_template_link ha
    rw [Action.command, Template.command]
    cases p with
    | device =>
      rw [← Except.ok.inj ht]
      rfl
    | host =>
      rw [← Except.ok.inj ht]
      rfl

theorem template_of_mem {a : Action} (hr : r ∈ units ++ link :: more) (ha : a ∈ r.row p)
    (hclear : a.kind = .deviceLink → ctx.config.LibraryClear fs paths) :
    ctx.settings.template fs a.kind = .ok a.template := by
  obtain ⟨before, final, hrun, hsplit⟩ := h.run
  exact hrun.template a (hrun.mem_toList (hsplit ▸ hr) ha) hclear

theorem temporaryPlace : ∀ q ∈ paths, TemporaryPlace fs dir q.location := by
  obtain ⟨before, final, hrun, -⟩ := h.run
  exact hrun.temporaryPlace

/-- Before link nothing depends on the library of the device. -/
theorem kind_ne_deviceLink {a : Action} (hr : r ∈ units) (ha : a ∈ r.row p) :
    a.kind ≠ .deviceLink := by
  obtain ⟨before, final, hrun, hsplit⟩ := h.run
  obtain ⟨first, rest, rfl⟩ := List.append_of_mem hr
  rw [List.append_assoc, List.cons_append] at hsplit
  intro hk
  have hmerge : a.kind.arity = .merge := by rw [hk]; rfl
  exact h.stage_ne_link hr ((hrun.rounds.row hsplit p).stage_eq_link ha hmerge)

theorem outputs_link_of_isLast (hl : ctx.stages.isLast .link = true) (p : Pipeline) :
    link.outputs p = (ctx.config.pipeline p).output.toList := by
  obtain ⟨before, final, hrun, hsplit⟩ := h.run
  have hm : link ∈ before ++ [final] :=
    hsplit ▸ List.mem_append_right _ List.mem_cons_self
  exact hrun.rounds.outputs_of_isLast hm (h.link.symm ▸ hl) p

theorem exists_mem_link (hl : ctx.stages.isLast .link = false) :
    ∃ before final, AssembledIn fs dir ctx plan paths before final ∧ link ∈ before := by
  obtain ⟨before, final, hrun, hsplit⟩ := h.run
  refine ⟨before, final, hrun, ?_⟩
  have hm : link ∈ before ++ [final] := hsplit ▸ List.mem_append_right _ List.mem_cons_self
  refine (List.mem_append.mp hm).resolve_right fun hfinal => ?_
  rw [← h.link, List.mem_singleton.mp hfinal, hrun.isLast_final] at hl
  cases hl

end OneRun

end LinkedIn

end CompilerDriver
