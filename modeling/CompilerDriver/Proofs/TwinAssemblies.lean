import CompilerDriver.Proofs.PairedRuns

/-!
# Assembly with other tokens

What an assembler does depends on its temporaries only through their form, and
the form is told by the request. So two runs from one place, whatever the steps
and the stages are, end in one error after as many allocations, or in plans that
are alike: step by step, what they have made so far corresponds.
-/
namespace CompilerDriver

/-- The units are those of one source or of one output, with artifacts that correspond. -/
structure CompilationUnit.Alike (same : Path → Path → Prop) (u u' : CompilationUnit) : Prop where
  source : u'.source = u.source
  /-- The source is the same file in both runs. -/
  configured : ∀ q, u.source = some q → same q q
  name : u'.name = u.name
  named : ∃ q, u.name = nameOf q
  previous : Option.Rel same u.previous u'.previous
  current : Option.Rel same u.current u'.current
  history : List.Forall₂ same u.history u'.history
  actions : u'.actions = u.actions

structure PipelineUnits.Alike (same : Path → Path → Prop) (part part' : PipelineUnits) : Prop
    where
  units : List.Forall₂ (CompilationUnit.Alike same) part.units part'.units
  combined : Option.Rel (CompilationUnit.Alike same) part.combined part'.combined

/-- The actions of every stage correspond one by one. -/
def StageActions.Alike (matched : Action → Action → Prop) (t t' : StageActions) : Prop :=
  ∀ s, List.Forall₂ matched (t.stage s) (t'.stage s)

/-- The actions are the same up to the tokens of the temporaries. The library of the device is the
same one as long as no temporary is called like it. -/
structure Action.Twin (c : Config) (drawn drawn' : List Path) (a a' : Action) : Prop where
  matched : a.Matched (SameFile c.files drawn drawn') a'
  template : (a.kind = .deviceLink → c.LibraryApart drawn ∧ c.LibraryApart drawn') →
    a'.template = a.template

/-- The plans are the same, up to what is said of their artifacts and of their actions. -/
structure BuildPlan.Alike (same : Path → Path → Prop) (matched : Action → Action → Prop)
    (plan plan' : BuildPlan) : Prop where
  stages : plan'.stages = plan.stages
  units : ∀ p, (plan.pipeline p).Alike same (plan'.pipeline p)
  actions : plan.actions.Alike matched plan'.actions

/-- Two outcomes of assembly from one start are the same up to the tokens: the same error after as
many allocations, or plans that are alike. -/
structure Assembler.SameOutcome (c : Config) (start : Workspace) (drawn drawn' : List Path)
    (outcome outcome' : Except PipelineError BuildPlan × Workspace) : Prop where
  registered : outcome.2.arena.paths = start.arena.paths ++ drawn ∧
    outcome'.2.arena.paths = start.arena.paths ++ drawn'
  /-- The temporaries of the two runs correspond one to one, and differ in their tokens only. -/
  temporaries : List.Forall₂ (Twins start.fs start.arena.dir) drawn drawn'
  nodup : drawn.Nodup ∧ drawn'.Nodup
  result : Agree (BuildPlan.Alike (SameFile c.files drawn drawn') (Action.Twin c drawn drawn'))
    outcome.1 outcome'.1

theorem optionRel_imp {α : Type} {R S : α → α → Prop} {x x' : Option α} (h : Option.Rel R x x')
    (hRS : ∀ a a', R a a' → S a a') : Option.Rel S x x' := by
  cases h with
  | some ha => exact .some (hRS _ _ ha)
  | none => exact .none

section Mono

variable {same same' : Path → Path → Prop} (hs : ∀ q q', same q q' → same' q q')

include hs

theorem CompilationUnit.Alike.mono {u u' : CompilationUnit} (h : u.Alike same u') :
    u.Alike same' u' where
  source := h.source
  configured q hq := hs _ _ (h.configured q hq)
  name := h.name
  named := h.named
  previous := optionRel_imp h.previous hs
  current := optionRel_imp h.current hs
  history := h.history.imp hs
  actions := h.actions

theorem PipelineUnits.Alike.mono {part part' : PipelineUnits} (h : part.Alike same part') :
    part.Alike same' part' where
  units := h.units.imp fun _ _ hu => hu.mono hs
  combined := optionRel_imp h.combined fun _ _ hu => hu.mono hs

theorem StageActions.Alike.mono {t t' : StageActions} (h : t.Alike (Action.Matched same) t') :
    t.Alike (Action.Matched same') t' :=
  fun s => (h s).imp fun _ _ ha => Action.Matched.mono ha hs

theorem BuildPlan.Alike.mono {plan plan' : BuildPlan}
    (h : plan.Alike same (Action.Matched same) plan') :
    plan.Alike same' (Action.Matched same') plan' where
  stages := h.stages
  units p := (h.units p).mono hs
  actions := h.actions.mono hs

end Mono

theorem PipelineUnits.Alike.isActive_eq {same : Path → Path → Prop} {part part' : PipelineUnits}
    (h : part.Alike same part') : part'.isActive = part.isActive := by
  have hunits := h.units
  unfold PipelineUnits.isActive
  generalize part.units = units at hunits ⊢
  generalize part'.units = units' at hunits ⊢
  cases hunits with
  | nil => rfl
  | cons _ _ => rfl

namespace CompilationUnit.Alike

variable {configured : List Path} {drawn : List (Path × Path)} {u u' : CompilationUnit}
  {q q' : Path} {p : Pipeline} {s : Stage} {same : Path → Path → Prop}

theorem append (h : u.Alike same u') (hq : same q q') : (u.append q).Alike same (u'.append q') where
  source := h.source
  configured := h.configured
  name := h.name
  named := h.named
  previous := h.current
  current := .some hq
  history := List.rel_append h.history (.cons hq .nil)
  actions := h.actions

theorem recordAction {id id' : ActionId} (h : u.Alike same u') (hid : id' = id) :
    (u.recordAction id).Alike same (u'.recordAction id') where
  source := h.source
  configured := h.configured
  name := h.name
  named := h.named
  previous := h.previous
  current := h.current
  history := h.history
  actions := by
    rw [CompilationUnit.recordAction, CompilationUnit.recordAction, h.actions, hid]

theorem ofSource (h : same q q) : (CompilationUnit.ofSource q).Alike same (.ofSource q) where
  source := rfl
  configured := by rintro _ ⟨⟩; exact h
  name := rfl
  named := ⟨q, rfl⟩
  previous := .none
  current := .none
  history := .nil
  actions := rfl

theorem combined (q : Path) : (CompilationUnit.combined q).Alike same (.combined q) where
  source := rfl
  configured := by rintro _ ⟨⟩
  name := rfl
  named := ⟨q, rfl⟩
  previous := .none
  current := .none
  history := .nil
  actions := rfl

theorem currentOutput (h : u.Alike same u') : Agree same u.currentOutput u'.currentOutput := by
  have hcurrent := h.current
  unfold CompilationUnit.currentOutput
  rw [h.name]
  generalize u.current = current at hcurrent ⊢
  generalize u'.current = current' at hcurrent ⊢
  cases hcurrent with
  | some hq => exact .ok hq
  | none => exact .error _

theorem currentInput (h : u.Alike same u') : Agree same u.currentInput u'.currentInput := by
  have hprevious := h.previous
  unfold CompilationUnit.currentInput
  rw [h.name, h.source]
  generalize u.previous = previous at hprevious ⊢
  generalize u'.previous = previous' at hprevious ⊢
  cases hprevious with
  | some hq => exact .ok hq
  | none =>
    cases hsource : u.source with
    | some q => exact .ok (h.configured q hsource)
    | none => exact .error _

/-- Both units have the same to read next, or temporaries in one intermediate form. -/
theorem next (h : u.Alike (SameArtifact configured drawn) u') :
    (u'.nextInput = u.nextInput ∧ u'.current = u.current) ∨
      ∃ f : Format, f.isIntermediate = true ∧ u.nextFormat = some f ∧ u'.nextFormat = some f ∧
        u.outputFormat = some f ∧ u'.outputFormat = some f := by
  have hcurrent := h.current
  unfold nextFormat outputFormat nextInput
  rw [h.source]
  generalize u.current = current at hcurrent ⊢
  generalize u'.current = current' at hcurrent ⊢
  cases hcurrent with
  | none => exact Or.inl ⟨rfl, rfl⟩
  | some hq =>
    cases hq with
    | configured _ => exact Or.inl ⟨rfl, rfl⟩
    | drawn _ hf hform hform' => exact Or.inr ⟨_, hf, hform, hform', hform, hform'⟩

/-- What is rejected is configured, and is rejected under its own name. -/
theorem kindFor_eq (h : u.Alike (SameArtifact configured drawn) u') :
    u'.kindFor p s u'.nextFormat = u.kindFor p s u.nextFormat ∧
      u'.kindFor p s u'.outputFormat = u.kindFor p s u.outputFormat := by
  rcases h.next with ⟨hnext, hcurrent⟩ | ⟨f, hf, hnext, hnext', hout, hout'⟩
  · unfold kindFor unrecognized nextFormat outputFormat
    rw [hnext, hcurrent, h.name]
    exact ⟨rfl, rfl⟩
  · unfold kindFor
    rw [hnext, hnext', hout, hout', ActionKind.dispatch_intermediate p s hf]
    exact ⟨rfl, rfl⟩

end CompilationUnit.Alike

namespace Action

variable {settings : BuildSettings} {kind : ActionKind} {same : Path → Path → Prop}
  {u u' : CompilationUnit} {units units' : List CompilationUnit}

theorem bind_agree (hu : u.Alike same u')
    (hunits : List.Forall₂ (CompilationUnit.Alike same) units units') :
    Agree (fun b b' : Binding => same b.output b'.output ∧ List.Forall₂ same b.inputs b'.inputs)
      (bind kind u units) (bind kind u' units') := by
  unfold bind
  split
  · refine hu.currentOutput.bind fun o o' ho => ?_
    refine (Agree.mapM hunits fun _ _ hv => hv.currentOutput).bind fun qs qs' hqs => ?_
    exact .ok ⟨ho, hqs⟩
  · refine hu.currentInput.bind fun q q' hq => hu.currentOutput.bind fun o o' ho => ?_
    exact .ok ⟨ho, .cons hq .nil⟩
  · refine hu.currentOutput.bind fun o o' ho => hu.currentInput.bind fun q q' hq => ?_
    exact .ok ⟨ho, .cons hq .nil⟩

/-- The library of the device is all that a template takes from the file system. -/
theorem template_agree (settings : BuildSettings) (fs fs' : FileSystem) (kind : ActionKind) :
    Agree (fun _ _ => True) (settings.template fs kind) (settings.template fs' kind) := by
  by_cases hlink : kind = .deviceLink
  · subst hlink
    exact .ok trivial
  · rw [settings.template_eq_of_ne hlink]
    exact (Agree.refl _).mono fun _ _ _ => trivial

theorem build_agree (settings : BuildSettings) (fs fs' : FileSystem) (kind : ActionKind)
    (hunits : List.Forall₂ (CompilationUnit.Alike same) units units') :
    Agree (Matched same) (build settings fs kind units) (build settings fs' kind units') := by
  unfold build
  rw [hunits.length_eq]
  refine (Agree.refl _).bind fun _ _ _ => ?_
  refine (template_agree settings fs fs' kind).bind fun t t' _ => ?_
  cases hunits with
  | nil => exact .error _
  | cons hu hrest =>
    refine (bind_agree hu hrest).bind fun b b' hb => ?_
    exact .ok ⟨rfl, hb.1, hb.2, rfl, rfl⟩

end Action

/-- An output is either configured or a temporary in an intermediate form. -/
def Assignable (configured : List Path) (final : Option Path) (extension : String) : Prop :=
  match final with
  | some path => path ∈ configured
  | none => ∃ f : Format, f.isIntermediate = true ∧ extension = f.extension

theorem StageActions.Alike.push {matched : Action → Action → Prop} {t t' : StageActions}
    {a a' : Action} (h : t.Alike matched t') (s : Stage) (ha : matched a a') :
    (t.push s a).1.Alike matched (t'.push s a').1 ∧ (t'.push s a').2 = (t.push s a).2 := by
  refine ⟨fun r => ?_, by rw [StageActions.push, StageActions.push, (h s).length_eq]⟩
  unfold StageActions.push
  by_cases hr : r = s
  · subst hr
    rw [stage_setStage_self, stage_setStage_self]
    exact List.rel_append (h r) (.cons ha .nil)
  · rw [stage_setStage_of_ne _ _ hr, stage_setStage_of_ne _ _ hr]
    exact h r

theorem BuildPlan.Alike.put {same : Path → Path → Prop} {matched : Action → Action → Prop}
    {plan plan' : BuildPlan} {part part' : PipelineUnits} {t t' : StageActions}
    (h : plan.Alike same matched plan') (p : Pipeline) (hpart : part.Alike same part')
    (ht : t.Alike matched t') :
    (plan.put p part t).Alike same matched (plan'.put p part' t') := by
  refine ⟨?_, fun q => ?_, ht⟩
  · rw [plan.stages_put, plan'.stages_put]
    exact h.stages
  · by_cases hq : q = p
    · subst hq
      rw [plan.pipeline_put_self, plan'.pipeline_put_self]
      exact hpart
    · rw [plan.pipeline_put_of_ne p _ _ hq, plan'.pipeline_put_of_ne p _ _ hq]
      exact h.units q

section Later

variable {configured : List Path} {drawn more : List (Path × Path)} (hd : drawn ⊆ more)

include hd

theorem CompilationUnit.Alike.later {u u' : CompilationUnit}
    (h : u.Alike (SameArtifact configured drawn) u') : u.Alike (SameArtifact configured more) u' :=
  h.mono fun _ _ hq => hq.mono hd

theorem StageActions.Alike.later {t t' : StageActions}
    (h : t.Alike (Action.Matched (SameArtifact configured drawn)) t') :
    t.Alike (Action.Matched (SameArtifact configured more)) t' :=
  h.mono fun _ _ hq => hq.mono hd

theorem BuildPlan.Alike.later {plan plan' : BuildPlan}
    (h : plan.Alike (SameArtifact configured drawn)
      (Action.Matched (SameArtifact configured drawn)) plan') :
    plan.Alike (SameArtifact configured more) (Action.Matched (SameArtifact configured more))
      plan' :=
  h.mono fun _ _ hq => hq.mono hd

end Later

section Steps

open AssemblyM

variable {start : Workspace} {drawn : List (Path × Path)} {configured : List Path}
  {u u' : CompilationUnit} {final : Option Path} {extension : String}

theorem CompilationUnit.Alike.attachOutput (h : u.Alike (SameArtifact configured drawn) u')
    (ho : Assignable configured final extension) :
    Corresponds start drawn (u.attachOutput final extension) (u'.attachOutput final extension)
      fun more v v' => v.Alike (SameArtifact configured more) v' := by
  cases final with
  | some path => exact corresponds_pure (h.append (.configured ho))
  | none =>
    obtain ⟨f, hf, rfl⟩ := ho
    obtain ⟨q, hq⟩ := h.named
    intro w w' hw
    rw [run_attachOutput_none, run_attachOutput_none, appendTemporary, appendTemporary, h.name, hq]
    rcases ha : w.allocate (nameOf q) f.extension with ⟨e | path, w₁⟩
    · obtain ⟨source, rfl⟩ := Workspace.tempArtifact_of_allocate ha
      exact .refused (Or.inl ⟨source, rfl⟩)
    · rcases ha' : w'.allocate (nameOf q) f.extension with ⟨e | path', w₁'⟩
      · obtain ⟨source, rfl⟩ := Workspace.tempArtifact_of_allocate ha'
        exact .refused (Or.inr ⟨source, rfl⟩)
      · have hform := (Workspace.answersIn_of_allocate (r := ⟨nameOf q, f.extension⟩) ha).answers
        have hform' := (Workspace.answersIn_of_allocate (r := ⟨nameOf q, f.extension⟩) ha').answers
        have hsub : drawn ⊆ drawn ++ [(path, path')] := List.subset_append_left _ _
        have hpair : (path, path') ∈ drawn ++ [(path, path')] := List.mem_concat_self
        exact .met hsub (hw.concat ha ha')
          (.ok ((h.later hsub).append (.drawn hpair hf hform.format hform'.format)))

namespace AssemblyContext

variable {ctx : AssemblyContext} {p : Pipeline} {s : Stage} {plan plan' : BuildPlan}
  {units units' : List CompilationUnit} {actions actions' : StageActions}

theorem assignable_tempFormat (ctx : AssemblyContext) (configured : List Path) (s : Stage) :
    Assignable configured none (ctx.tempFormat s).extension :=
  ⟨ctx.tempFormat s, isIntermediate_tempFormat ctx s, rfl⟩

theorem mem_files_of_finalOutput {path : Path} (h : ctx.finalOutput p = .ok path) :
    path ∈ ctx.config.files := by
  refine ctx.config.files_subset p (List.mem_append_right _ ?_)
  unfold finalOutput at h
  split at h
  · next ho =>
    cases h
    rw [ho]
    exact List.mem_cons_self
  · cases h

theorem buildAction_corresponds (kind : ActionKind)
    (h : List.Forall₂ (CompilationUnit.Alike (SameArtifact configured drawn)) units units') :
    Corresponds start drawn (ctx.buildAction kind units) (ctx.buildAction kind units')
      fun more a a' => a.Matched (SameArtifact configured more) a' := by
  intro w w' hw
  rw [run_buildAction, run_buildAction, ← run_ofExcept, ← run_ofExcept]
  exact corresponds_ofExcept (Action.build_agree ctx.settings w.fs w'.fs kind h) w w' hw

theorem assembleUnit_corresponds (hu : u.Alike (SameArtifact configured drawn) u')
    (ho : Assignable configured final extension)
    (hactions : actions.Alike (Action.Matched (SameArtifact configured drawn)) actions') :
    Corresponds start drawn (ctx.assembleUnit p s final extension u actions)
      (ctx.assembleUnit p s final extension u' actions') fun more r r' =>
        r.1.Alike (SameArtifact configured more) r'.1 ∧
          r.2.Alike (Action.Matched (SameArtifact configured more)) r'.2 := by
  unfold assembleUnit
  rw [hu.kindFor_eq.1]
  refine (corresponds_same _).bind ?_
  rintro more _ kind hkind ⟨rfl, -⟩
  refine ((hu.later hkind).attachOutput ho).bind fun more₁ v v' hnext hv => ?_
  refine (buildAction_corresponds kind (.cons hv .nil)).bind fun more₂ a a' hbuilt ha => ?_
  have hd : drawn ⊆ more₂ := List.Subset.trans hkind (List.Subset.trans hnext hbuilt)
  obtain ⟨hpush, hid⟩ := (hactions.later hd).push s ha
  exact corresponds_pure ⟨(hv.later hbuilt).recordAction hid, hpush⟩

theorem assembleUnits_corresponds (ho : Assignable configured final extension)
    (hunits : List.Forall₂ (CompilationUnit.Alike (SameArtifact configured drawn)) units units')
    (hactions : actions.Alike (Action.Matched (SameArtifact configured drawn)) actions') :
    Corresponds start drawn (ctx.assembleUnits p s final extension units actions)
      (ctx.assembleUnits p s final extension units' actions') fun more r r' =>
        List.Forall₂ (CompilationUnit.Alike (SameArtifact configured more)) r.1 r'.1 ∧
          r.2.Alike (Action.Matched (SameArtifact configured more)) r'.2 := by
  induction units generalizing units' drawn actions actions' with
  | nil =>
    cases hunits
    exact corresponds_pure ⟨.nil, hactions⟩
  | cons u rest ih =>
    cases hunits with
    | cons hu hrest =>
      unfold assembleUnits
      refine (assembleUnit_corresponds hu ho hactions).bind ?_
      rintro more ⟨v, acts⟩ ⟨v', acts'⟩ hd ⟨hv, hacts⟩
      refine (ih (hrest.imp fun _ _ hw => hw.later hd) hacts).bind ?_
      rintro more₁ ⟨vs, acts₁⟩ ⟨vs', acts₁'⟩ hd₁ ⟨hvs, hacts₁⟩
      exact corresponds_pure ⟨.cons (hv.later hd₁) hvs, hacts₁⟩

/-- The plans correspond, as far as they have come with these temporaries. -/
def Keeps (ctx : AssemblyContext) (drawn : List (Path × Path)) (plan plan' : BuildPlan) : Prop :=
  plan.Alike (SameArtifact ctx.config.files drawn)
    (Action.Matched (SameArtifact ctx.config.files drawn)) plan'

theorem perUnit_corresponds (h : ctx.Keeps drawn plan plan') :
    Corresponds start drawn (ctx.perUnit s p plan) (ctx.perUnit s p plan') ctx.Keeps := by
  have hunits (final : Option Path)
      (ho : Assignable ctx.config.files final (ctx.tempFormat s).extension) :
      Corresponds start drawn
        (do
          let r ← ctx.assembleUnits p s final (ctx.tempFormat s).extension (plan.pipeline p).units
            plan.actions
          return plan.put p { plan.pipeline p with units := r.1 } r.2)
        (do
          let r ← ctx.assembleUnits p s final (ctx.tempFormat s).extension (plan'.pipeline p).units
            plan'.actions
          return plan'.put p { plan'.pipeline p with units := r.1 } r.2) ctx.Keeps := by
    refine (assembleUnits_corresponds ho (h.units p).units h.actions).bind ?_
    rintro more r r' hd ⟨hr, hacts⟩
    have hlast := h.later hd
    exact corresponds_pure (hlast.put p ⟨hr, (hlast.units p).combined⟩ hacts)
  unfold perUnit
  dsimp only
  split_ifs
  · cases hfinal : ctx.finalOutput p with
    | error e => exact corresponds_throw e
    | ok path => exact hunits (some path) (mem_files_of_finalOutput hfinal)
  · exact hunits none (ctx.assignable_tempFormat _ s)

theorem linkKind_eq (kind : Option ActionKind)
    (h : List.Forall₂ (CompilationUnit.Alike (SameArtifact configured drawn)) units units') :
    linkKind p units' kind = linkKind p units kind := by
  induction h generalizing kind with
  | nil => rfl
  | cons hu _ ih =>
    unfold linkKind
    rw [hu.kindFor_eq.2]
    simp only [ih]

theorem link_corresponds (h : ctx.Keeps drawn plan plan') :
    Corresponds start drawn (ctx.link p plan) (ctx.link p plan') ctx.Keeps := by
  unfold link
  refine (corresponds_same _).bind ?_
  rintro more₁ _ output hd₁ ⟨rfl, houtput⟩
  have hunits := h.units p
  dsimp only
  rw [linkKind_eq none hunits.units]
  refine (corresponds_same _).bind ?_
  rintro more₂ _ kind? hd₂ ⟨rfl, -⟩
  cases kind? with
  | none => exact corresponds_throw _
  | some kind =>
    have hcombined : ((plan.pipeline p).combined.getD (.combined output)).Alike
        (SameArtifact ctx.config.files drawn)
        ((plan'.pipeline p).combined.getD (.combined output)) := by
      have hrel := hunits.combined
      generalize (plan.pipeline p).combined = combined at hrel ⊢
      generalize (plan'.pipeline p).combined = combined' at hrel ⊢
      cases hrel with
      | some hu => exact hu
      | none => exact .combined output
    have ho : Assignable ctx.config.files (if ctx.stages.isLast .link then some output else none)
        (ctx.tempFormat .link).extension := by
      split
      · exact mem_files_of_finalOutput houtput
      · exact ctx.assignable_tempFormat _ .link
    refine ((hcombined.later (List.Subset.trans hd₁ hd₂)).attachOutput ho).bind ?_
    intro more₃ u u' hd₃ hu
    have hthird : drawn ⊆ more₃ := List.Subset.trans (List.Subset.trans hd₁ hd₂) hd₃
    have hmembers := hunits.units.imp fun _ _ hv => hv.later hthird
    refine (buildAction_corresponds kind (.cons hu hmembers)).bind ?_
    intro more₄ a a' hd₄ ha
    have hlast := h.later (List.Subset.trans hthird hd₄)
    obtain ⟨hpush, hid⟩ := hlast.actions.push .link ha
    exact corresponds_pure (hlast.put p
      ⟨(hlast.units p).units, .some ((hu.later hd₄).recordAction hid)⟩ hpush)

theorem carrierOf_agree {part part' : PipelineUnits}
    (h : part.Alike (SameArtifact configured drawn) part') :
    Agree (CompilationUnit.Alike (SameArtifact configured drawn)) (carrierOf s part)
      (carrierOf s part') := by
  obtain ⟨units, combined⟩ := part
  obtain ⟨units', combined'⟩ := part'
  obtain ⟨hunits, hcombined⟩ := h
  cases hcombined with
  | some hu => exact .ok hu
  | none =>
    rcases hunits with _ | ⟨hu, _ | ⟨hv, hrest⟩⟩
    · exact .error _
    · exact .ok hu
    · unfold carrierOf
      dsimp only
      rw [List.length_cons, List.length_cons, hrest.length_eq]
      exact .error _

theorem alike_setCarrier {part part' : PipelineUnits}
    (h : part.Alike (SameArtifact configured drawn) part')
    (hu : u.Alike (SameArtifact configured drawn) u') :
    (setCarrier part u).Alike (SameArtifact configured drawn) (setCarrier part' u') := by
  obtain ⟨units, combined⟩ := part
  obtain ⟨units', combined'⟩ := part'
  obtain ⟨hunits, hcombined⟩ := h
  cases hcombined with
  | some _ => exact ⟨hunits, .some hu⟩
  | none => exact ⟨.cons hu .nil, .none⟩

theorem carrier_corresponds (h : ctx.Keeps drawn plan plan') :
    Corresponds start drawn (ctx.carrier s p plan) (ctx.carrier s p plan') ctx.Keeps := by
  unfold carrier
  dsimp only
  split_ifs
  · exact corresponds_throw (.stageOrdering s)
  · refine (corresponds_same _).bind ?_
    rintro more₁ _ output hd₁ ⟨rfl, houtput⟩
    have hfirst := h.later hd₁
    refine (corresponds_ofExcept (Q := fun more => CompilationUnit.Alike
      (SameArtifact ctx.config.files more)) (carrierOf_agree (hfirst.units p))).bind ?_
    intro more₂ u u' hd₂ hu
    have hsecond := hfirst.later hd₂
    have ho : Assignable ctx.config.files (some output) "" := mem_files_of_finalOutput houtput
    refine (assembleUnit_corresponds hu ho hsecond.actions).bind ?_
    rintro more₃ ⟨v, acts⟩ ⟨v', acts'⟩ hd₃ ⟨hv, hacts⟩
    have hlast := hsecond.later hd₃
    exact corresponds_pure (hlast.put p (alike_setCarrier (hlast.units p) hv) hacts)

end AssemblyContext

namespace StageAssembler

variable {ctx : AssemblyContext} {p : Pipeline} {plan plan' : BuildPlan}

theorem run_corresponds (a : StageAssembler) (h : ctx.Keeps drawn plan plan') :
    Corresponds start drawn (a.run ctx p plan) (a.run ctx p plan') ctx.Keeps := by
  cases a with
  | perUnit s => exact AssemblyContext.perUnit_corresponds h
  | link => exact AssemblyContext.link_corresponds h
  | carrier s => exact AssemblyContext.carrier_corresponds h

theorem runPipelines_corresponds (a : StageAssembler) (h : ctx.Keeps drawn plan plan') :
    Corresponds start drawn (a.runPipelines ctx plan) (a.runPipelines ctx plan') ctx.Keeps := by
  refine Corresponds.foldlM (fun more plan plan' hplan p _ => ?_) h
  rw [(hplan.units p).isActive_eq]
  split_ifs
  · exact a.run_corresponds hplan
  · exact corresponds_pure hplan

end StageAssembler

end Steps

namespace Assembler

open AssemblyM

theorem keeps_initial (ctx : AssemblyContext) :
    ctx.Keeps [] (.initial ctx.stages ctx.config) (.initial ctx.stages ctx.config) := by
  refine ⟨rfl, fun p => ?_, fun s => ?_⟩
  · rw [AssemblyContext.pipeline_initial]
    refine ⟨?_, .none⟩
    rw [PipelineUnits.ofInputs, List.forall₂_map_left_iff, List.forall₂_map_right_iff,
      List.forall₂_same]
    intro q hq
    exact .ofSource (.configured (ctx.config.files_subset p (List.mem_append_left _ hq)))
  · have hempty : (BuildPlan.initial ctx.stages ctx.config).actions.stage s = [] :=
      PerStage.get_replicate [] s
    rw [hempty]
    exact .nil

/-- Whatever the steps are, assembly ends alike in two runs from one place. -/
theorem assemble_corresponds (a : Assembler) (settings : BuildSettings) (stages : StagePlan)
    (start : Workspace) :
    Corresponds start [] (a.assemble settings stages) (a.assemble settings stages)
      (AssemblyContext.Keeps ⟨settings, stages⟩) :=
  Corresponds.foldlM (fun _ _ _ h step _ => step.runPipelines_corresponds h)
    (keeps_initial ⟨settings, stages⟩)

/-- But for refused allocations, runs with other tokens have the same outcome up to these. -/
theorem sameOutcome_assemble (a : Assembler) (settings : BuildSettings) (stages : StagePlan)
    (w : Workspace) (names : NameSupply)
    (hn : ¬ Build.AllocationFails ((a.assemble settings stages).run w))
    (hn' : ¬ Build.AllocationFails
      ((a.assemble settings stages).run { w with names := names })) :
    ∃ drawn drawn', SameOutcome settings.config w drawn drawn'
      ((a.assemble settings stages).run w)
      ((a.assemble settings stages).run { w with names := names }) := by
  have hends := a.assemble_corresponds settings stages w _ _ (.refl names)
  rcases hrun : (a.assemble settings stages).run w with ⟨x, w₁⟩
  rcases hrun' : (a.assemble settings stages).run { w with names := names } with ⟨x', w₁'⟩
  rw [hrun, hrun'] at hends
  rw [hrun] at hn
  rw [hrun'] at hn'
  cases hends with
  | refused hr => exact absurd hr (not_or.mpr ⟨hn, hn'⟩)
  | @met _ _ _ _ drawn _ hw hx =>
    refine ⟨drawn.map Prod.fst, drawn.map Prod.snd, ⟨hw.paths, hw.paths'⟩, hw.twins, hw.nodup, ?_⟩
    cases hx with
    | error e => exact .error e
    | @ok plan plan' hplan =>
      have hfiles := hplan.mono fun _ _ hq => hq.sameFile
      refine .ok ⟨hfiles.stages, hfiles.units, fun s => ?_⟩
      refine forall₂_of_mem (hfiles.actions s) fun action hm action' hm' h => ⟨h, fun hlib => ?_⟩
      have ht := template_of_assemble hrun hw.paths action
        (StageActions.mem_toList_iff.mpr ⟨s, hm⟩) fun hk => (hlib hk).1.clear hw.fileName.1 w.fs
      have ht' := template_of_assemble hrun' hw.paths' action'
        (StageActions.mem_toList_iff.mpr ⟨s, hm'⟩) fun hk =>
          (hlib (h.kind ▸ hk)).2.clear hw.fileName.2 w.fs
      rw [h.kind] at ht'
      exact (Except.ok.inj (ht.symm.trans ht')).symm

end Assembler

end CompilerDriver
