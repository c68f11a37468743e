import CompilerDriver.Proofs.StageTurn

/-!
# Stages draw their temporaries

The three ways to assemble a stage, each run on a pipeline whose front the stage
accepts. It draws one temporary for each output, or none at the last stage, and
the result is a turn of the pipeline.
-/
namespace CompilerDriver

namespace AssemblyContext

open AssemblyM CompilationUnit

variable {ctx : AssemblyContext} {p : Pipeline} {s : Stage} {plan : BuildPlan} {w : Workspace}
  {front : List Path} {output : Path}

/-- The final path of a stage for a pipeline: the configured output, at the last stage. -/
def finalFor (ctx : AssemblyContext) (s : Stage) (p : Pipeline) : Option Path :=
  if ctx.stages.isLast s then (ctx.config.pipeline p).output else none

/-- The plan comes from a turn of the pipeline, and the paths are what its actions write. -/
def TakesTurn (ctx : AssemblyContext) (s : Stage) (p : Pipeline) (front : List Path)
    (plan : BuildPlan) (paths : List Path) (plan' : BuildPlan) : Prop :=
  ∃ acts, Turn ctx.settings p s front plan acts plan' ∧ Assigned (ctx.finalFor s p) paths acts

theorem finalOutput_eq_ok (h : (ctx.config.pipeline p).output = some output) :
    ctx.finalOutput p = .ok output := by
  rw [finalOutput, h]

theorem isSome_dispatch_nextFormat {units : List CompilationUnit}
    (hf : units.map (·.nextInput) = front.map some)
    (hk : ∀ q ∈ front, (ActionKind.dispatch p s (Format.ofPath? q)).isSome = true) :
    ∀ u ∈ units, (ActionKind.dispatch p s u.nextFormat).isSome = true := by
  intro u hu
  have hm : u.nextInput ∈ front.map some := hf ▸ List.mem_map_of_mem hu
  obtain ⟨q, hq, he⟩ := List.mem_map.mp hm
  rw [nextFormat, ← he]
  exact hk q hq

/-- With its output known, a stage of units only advances them. -/
theorem perUnit_eq (h : (ctx.config.pipeline p).output = some output) :
    ctx.perUnit s p plan = (do
      let r ← ctx.assembleUnits p s (ctx.finalFor s p) (ctx.tempFormat s).extension
        (plan.pipeline p).units plan.actions
      return plan.put p { plan.pipeline p with units := r.1 } r.2) := by
  unfold perUnit finalFor
  rw [finalOutput_eq_ok h, h]
  cases ctx.stages.isLast s <;> rfl

theorem perUnit_draws (hs : s ≠ .link) (ho : (ctx.config.pipeline p).output = some output)
    (hc : (plan.pipeline p).combined = none)
    (hf : (plan.pipeline p).units.map (·.nextInput) = front.map some)
    (hk : ∀ q ∈ front, (ActionKind.dispatch p s (Format.ofPath? q)).isSome = true)
    (hd : s = .analyze ∨ s = .transform → ctx.config.database.isSome = true) :
    Draws (ctx.perUnit s p plan)
      (requested (ctx.finalFor s p) (ctx.tempFormat s).extension
        ((plan.pipeline p).units.map (·.name))) w (ctx.TakesTurn s p front plan) := by
  rw [perUnit_eq ho]
  refine (assembleUnits_draws hs (isSome_dispatch_nextFormat hf hk) hd).bind_pure ?_
  rintro paths ⟨units, _⟩ ⟨acts, hacts, hpaths, rfl⟩
  exact ⟨acts, Turn.of_advances hs hc hf hacts, hpaths⟩

/-- A unit in a form that is not accepted stops the stage. -/
theorem perUnit_rejects {before after : List CompilationUnit} {u : CompilationUnit}
    (hs : s ≠ .link) (ho : (ctx.config.pipeline p).output = some output)
    (hu : (plan.pipeline p).units = before ++ u :: after)
    (hk : ∀ v ∈ before, (ActionKind.dispatch p s v.nextFormat).isSome = true)
    (hd : s = .analyze ∨ s = .transform → ctx.config.database.isSome = true)
    (hn : ActionKind.dispatch p s u.nextFormat = none) :
    Rejects (ctx.perUnit s p plan)
      (requested (ctx.finalFor s p) (ctx.tempFormat s).extension (before.map (·.name))) w
      (u.unrecognized p s) := by
  rw [perUnit_eq ho, hu]
  exact (assembleUnits_rejects hs hk hd hn).bind

theorem mapM_currentOutput {units : List CompilationUnit}
    (hf : units.map (·.current) = front.map some) :
    units.mapM currentOutput = .ok front := by
  induction units generalizing front with
  | nil =>
    rw [List.map_nil, eq_comm, List.map_eq_nil_iff] at hf
    subst hf
    rfl
  | cons u rest ih =>
    cases front with
    | nil => cases hf
    | cons q front =>
      rw [List.map_cons, List.map_cons, List.cons.injEq] at hf
      have hu : u.currentOutput = .ok q := by rw [currentOutput, hf.1]
      simp only [List.mapM_cons, hu, ih hf.2, bind, Except.bind, pure, Except.pure]

theorem current_of_currentOutput {u : CompilationUnit} {q : Path} (h : u.currentOutput = .ok q) :
    u.current = some q := by
  unfold currentOutput at h
  split at h
  · next hc =>
    cases h
    exact hc
  · cases h

/-- Units whose outputs could be listed have these outputs. -/
theorem map_current_of_mapM {units : List CompilationUnit}
    (h : units.mapM currentOutput = .ok front) : units.map (·.current) = front.map some := by
  induction units generalizing front with
  | nil =>
    cases h
    rfl
  | cons u rest ih =>
    rw [List.mapM_cons] at h
    cases hu : u.currentOutput with
    | error e =>
      rw [hu] at h
      cases h
    | ok q =>
      cases hrest : rest.mapM currentOutput with
      | error e =>
        rw [hu, hrest] at h
        cases h
      | ok qs =>
        rw [hu, hrest] at h
        cases h
        rw [List.map_cons, List.map_cons, current_of_currentOutput hu, ih hrest]

/-- Where every output is accepted, the link action is the one of the pipeline. -/
theorem linkKind_eq_ok {units : List CompilationUnit} (kind : Option ActionKind)
    (hf : units.map (·.current) = front.map some)
    (hk : ∀ q ∈ front, (ActionKind.dispatch p .link (Format.ofPath? q)).isSome = true) :
    linkKind p units kind =
      .ok (if units = [] then kind else some (ActionKind.ofIntermediate p .link)) := by
  induction units generalizing front kind with
  | nil => rfl
  | cons u rest ih =>
    cases front with
    | nil => cases hf
    | cons q front =>
      rw [List.map_cons, List.map_cons, List.cons.injEq] at hf
      obtain ⟨hq, hrest⟩ := List.forall_mem_cons.mp hk
      have hu : u.kindFor p .link u.outputFormat = .ok (ActionKind.ofIntermediate p .link) := by
        refine kindFor_eq_ok ?_
        rw [outputFormat, hf.1]
        exact ActionKind.dispatch_of_ne_compile (by decide) hq
      simp only [linkKind, hu, bind, Except.bind, ih _ hf.2 hrest, ite_self, reduceCtorEq, if_false]

/-- The link action of a pipeline can be built on any file system. -/
theorem exists_build_link {units : List CompilationUnit} {u : CompilationUnit} {o : Path}
    (fs : FileSystem) (hn : units ≠ []) (hm : units.mapM currentOutput = .ok front) :
    ∃ a, Action.build ctx.settings fs (ActionKind.ofIntermediate p .link) (u.append o :: units) =
        .ok a ∧ a.Built ctx.settings ∧ a.kind = ActionKind.ofIntermediate p .link ∧
      a.binding = ⟨o, front⟩ := by
  have ha : (ActionKind.ofIntermediate p .link).arity = .merge := by cases p <;> rfl
  have hnp : (ActionKind.ofIntermediate p .link).isPass = false := by cases p <;> rfl
  obtain ⟨t, ht⟩ : ∃ t, ctx.settings.template fs (ActionKind.ofIntermediate p .link) = .ok t :=
    ctx.settings.exists_template fs fun hp => absurd hp (by rw [hnp]; decide)
  exact ⟨_, Action.build_merge ha hn ht hm (currentOutput_append u o), ⟨⟨fs, ht⟩, rfl, rfl⟩, rfl,
    rfl⟩

theorem link_draws (ho : (ctx.config.pipeline p).output = some output)
    (hc : (plan.pipeline p).combined = none)
    (hf : (plan.pipeline p).units.map (·.current) = front.map some) (hne : front ≠ [])
    (hk : ∀ q ∈ front, (ActionKind.dispatch p .link (Format.ofPath? q)).isSome = true) :
    Draws (ctx.link p plan)
      (requested (ctx.finalFor .link p) (ctx.tempFormat .link).extension [nameOf output]) w
      (ctx.TakesTurn .link p front plan) := by
  have hunits : (plan.pipeline p).units ≠ [] := by
    intro h
    rw [h, List.map_nil, eq_comm, List.map_eq_nil_iff] at hf
    exact hne hf
  have hkind := linkKind_eq_ok none hf hk
  rw [if_neg hunits] at hkind
  have hfinal : (if ctx.stages.isLast .link then some output else none) = ctx.finalFor .link p := by
    rw [finalFor, ho]
  unfold link
  refine (draws_ofExcept (finalOutput_eq_ok ho)).pure_bind ?_
  intro path hpath
  obtain rfl : output = path := hpath.symm
  dsimp only
  rw [hfinal]
  refine (draws_ofExcept hkind).pure_bind ?_
  rintro _ rfl
  dsimp only
  rw [hc, Option.getD_none, ← List.append_nil (requested _ _ _)]
  refine (attachOutput_draws (.combined output)).bind ?_
  rintro paths _ w' - ⟨o, rfl, hpaths⟩
  refine (buildAction_draws fun fs =>
    exists_build_link fs hunits (mapM_currentOutput hf)).pure_bind ?_
  rintro a ⟨hbuilt, ha, hb⟩
  have hk' : ∀ q ∈ front, ActionKind.dispatch p .link (Format.ofPath? q) = some a.kind := by
    intro q hq
    rw [ha]
    exact ActionKind.dispatch_of_ne_compile (by decide) (hk q hq)
  have hout : a.binding.output = o := congrArg Binding.output hb
  refine draws_pure ⟨[a], ?_, by rw [List.append_nil]; exact hpaths a hout⟩
  subst hout
  exact Turn.of_merge hc rfl (mapM_currentOutput hf) hne hk' hbuilt (congrArg Binding.inputs hb)

theorem carrierOf_eq_ok {units : PipelineUnits} {u : CompilationUnit}
    (hu : units.carriers = [u]) : carrierOf s units = .ok u := by
  unfold PipelineUnits.carriers at hu
  unfold carrierOf
  split at hu
  · next hc =>
    rw [hc, List.singleton_inj.mp hu]
  · next hc =>
    rw [hc, hu]

theorem carrier_eq {u : CompilationUnit} (hl : ctx.stages.isLast s = true)
    (ho : (ctx.config.pipeline p).output = some output)
    (hu : (plan.pipeline p).carriers = [u]) :
    ctx.carrier s p plan = (do
      let r ← ctx.assembleUnit p s (some output) "" u plan.actions
      return plan.put p (setCarrier (plan.pipeline p) r.1) r.2) := by
  unfold carrier
  rw [hl, finalOutput_eq_ok ho, carrierOf_eq_ok hu]
  rfl

theorem carrier_draws {u : CompilationUnit} {q : Path} (hs : s ≠ .link)
    (hl : ctx.stages.isLast s = true) (ho : (ctx.config.pipeline p).output = some output)
    (hu : (plan.pipeline p).carriers = [u]) (hq : u.nextInput = some q)
    (hk : (ActionKind.dispatch p s (Format.ofPath? q)).isSome = true)
    (hd : s = .analyze ∨ s = .transform → ctx.config.database.isSome = true) :
    Draws (ctx.carrier s p plan) [] w (ctx.TakesTurn s p [q] plan) := by
  have hk' : (ActionKind.dispatch p s u.nextFormat).isSome = true := by
    rw [nextFormat, hq]
    exact hk
  have hfinal : ctx.finalFor s p = some output := by rw [finalFor, if_pos hl, ho]
  unfold TakesTurn
  rw [carrier_eq hl ho hu, hfinal]
  have hunit : Draws (ctx.assembleUnit p s (some output) "" u plan.actions) [] w _ :=
    assembleUnit_draws hs hk' hd
  refine hunit.bind_pure ?_
  rintro paths _ ⟨a, ha, hpaths, rfl⟩
  exact ⟨[a], Turn.of_carrier hs hu hq ha, hpaths⟩

end AssemblyContext

end CompilerDriver
