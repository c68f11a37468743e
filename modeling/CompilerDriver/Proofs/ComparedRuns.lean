import CompilerDriver.Build
import CompilerDriver.Proofs.AlikePlans
import CompilerDriver.Proofs.AssemblySuccess
import CompilerDriver.Proofs.WorkspaceGrowth
import Mathlib.Data.List.Perm.Basic

/-!
# Two runs of assembly compared

A run that starts with an empty registry makes its temporaries in one place, and
its actions look as the file system told at the start. So two runs that start in
the same place can be compared by their plans and temporaries alone. Whatever
the two configurations say of the other pipeline, and whatever tokens are drawn,
the plans are the same in a pipeline on which the configurations agree.
-/
namespace CompilerDriver

section Places

variable {α : Type} {l : List α} {n : Nat} {P : Nat → Prop} [DecidablePred P]

theorem filter_zipIdx_of_forall (h : ∀ i, n ≤ i → i < n + l.length → P i) :
    ((l.zipIdx n).filter fun e => decide (P e.2)) = l.zipIdx n := by
  rw [List.filter_eq_self]
  intro e he
  exact decide_eq_true (h e.2 (List.mem_zipIdx he).1 (List.mem_zipIdx he).2.1)

theorem filter_zipIdx_of_forall_not (h : ∀ i, n ≤ i → i < n + l.length → ¬ P i) :
    ((l.zipIdx n).filter fun e => decide (P e.2)) = [] := by
  rw [List.filter_eq_nil_iff]
  intro e he hP
  exact h e.2 (List.mem_zipIdx he).1 (List.mem_zipIdx he).2.1 (of_decide_eq_true hP)

end Places

namespace Assembled

variable {ctx : AssemblyContext} {plan : BuildPlan} {paths : List Path} {before : List Round}
  {final r : Round} {p : Pipeline} {s : Stage} {a : Action}

theorem mem_toList (h : Assembled ctx plan paths before final) (hr : r ∈ before ++ [final])
    (ha : a ∈ r.row p) : a ∈ plan.actions.toList := by
  rw [h.toList_eq_flatMap]
  refine List.mem_flatMap.mpr ⟨r, hr, ?_⟩
  cases p with
  | device => exact List.mem_append_left _ ha
  | host => exact List.mem_append_right _ ha

/-- The actions of a pipeline at a stage are its row. -/
theorem actionsOf_of_mem (h : Assembled ctx plan paths before final) (hr : r ∈ before ++ [final])
    (p : Pipeline) : plan.actionsOf p r.stage = r.row p := by
  let P (i : Nat) : Prop := plan.Owns p ⟨r.stage, i⟩
  have hP (i : Nat) : P i ↔ r.offset p ≤ i ∧ i < r.offset p + (r.row p).length :=
    h.owns_iff_of_mem hr
  have hactions : plan.actionsOf p r.stage =
      (((r.row .device).zipIdx.filter fun e => decide (P e.2)) ++
        ((r.row .host).zipIdx (r.row .device).length).filter fun e => decide (P e.2)).map
          Prod.fst := by
    rw [BuildPlan.actionsOf, h.stage_of_mem hr, Round.actions, List.zipIdx_append, Nat.zero_add,
      List.filter_append]
  cases p with
  | device =>
    have hdevice : ∀ i, 0 ≤ i → i < 0 + (r.row .device).length → P i := fun i hi hlt =>
      (hP i).mpr ⟨hi, hlt⟩
    have hhost : ∀ i, (r.row .device).length ≤ i →
        i < (r.row .device).length + (r.row .host).length → ¬ P i := fun i hi _ hown => by
      have hlt := ((hP i).mp hown).2
      rw [Round.offset, Nat.zero_add] at hlt
      exact Nat.lt_irrefl i (Nat.lt_of_lt_of_le hlt hi)
    rw [hactions, filter_zipIdx_of_forall hdevice, filter_zipIdx_of_forall_not hhost,
      List.append_nil, List.zipIdx_map_fst]
  | host =>
    have hdevice : ∀ i, 0 ≤ i → i < 0 + (r.row .device).length → ¬ P i := fun i _ hi hown => by
      have hle := ((hP i).mp hown).1
      rw [Nat.zero_add] at hi
      exact Nat.lt_irrefl i (Nat.lt_of_lt_of_le hi hle)
    have hhost : ∀ i, (r.row .device).length ≤ i →
        i < (r.row .device).length + (r.row .host).length → P i := fun i hi hlt =>
      (hP i).mpr ⟨hi, hlt⟩
    rw [hactions, filter_zipIdx_of_forall_not hdevice, filter_zipIdx_of_forall hhost,
      List.nil_append, List.zipIdx_map_fst]

theorem actionsOf_eq_nil (h : Assembled ctx plan paths before final)
    (hs : ctx.stages.isActive s = false) : plan.actionsOf p s = [] := by
  rw [BuildPlan.actionsOf, h.stage_eq_nil hs]
  rfl

theorem exists_round (h : Assembled ctx plan paths before final)
    (hs : ctx.stages.isActive s = true) : ∃ r ∈ before ++ [final], r.stage = s := by
  have hm := StagePlan.mem_activeStages_iff.mpr hs
  rw [← h.stages] at hm
  exact List.mem_map.mp hm

theorem isActive_stage (h : Assembled ctx plan paths before final) (hr : r ∈ before ++ [final]) :
    ctx.stages.isActive r.stage = true := by
  rw [← StagePlan.mem_activeStages_iff, ← h.stages]
  exact List.mem_map_of_mem hr

/-- The form of what an action reads tells its kind. -/
theorem exists_dispatch (h : Assembled ctx plan paths before final) (hr : r ∈ before ++ [final])
    (ha : a ∈ r.row p) : ∃ format, ActionKind.dispatch p r.stage format = some a.kind := by
  obtain ⟨pre, post, hsplit⟩ := List.append_of_mem hr
  have hrow := h.rounds.row hsplit p
  obtain ⟨q, hq⟩ := List.exists_mem_of_ne_nil _ (hrow.inputs_ne_nil ha)
  exact ⟨_, hrow.kind a ha q hq⟩

/-- The actions of the device at link are device links, and there are no others. -/
theorem kind_of_link (h : Assembled ctx plan paths before final) (hr : r ∈ before ++ [final])
    (hs : r.stage = .link) (ha : a ∈ r.row .device) : a.kind = .deviceLink := by
  obtain ⟨format, hd⟩ := h.exists_dispatch hr ha
  have hsome : (ActionKind.dispatch .device .link format).isSome = true := by
    rw [← hs, hd]
    rfl
  rw [hs, ActionKind.dispatch_of_ne_compile (by decide) hsome, Option.some.injEq] at hd
  exact hd.symm

theorem of_kind_deviceLink (h : Assembled ctx plan paths before final)
    (hr : r ∈ before ++ [final]) (ha : a ∈ r.row p) (hk : a.kind = .deviceLink) :
    p = .device ∧ r.stage = .link := by
  obtain ⟨format, hd⟩ := h.exists_dispatch hr ha
  obtain ⟨pre, post, hsplit⟩ := List.append_of_mem hr
  refine ⟨?_, (h.rounds.row hsplit p).stage_eq_link ha (by rw [hk]; rfl)⟩
  cases p with
  | device => rfl
  | host => exact absurd hk (ActionKind.of_dispatch_host hd).2

/-- Each action has looked at the file system of some moment. -/
theorem exists_template (h : Assembled ctx plan paths before final) (hr : r ∈ before ++ [final])
    (ha : a ∈ r.row p) : ∃ fs, ctx.settings.template fs a.kind = .ok a.template := by
  obtain ⟨pre, post, hsplit⟩ := List.append_of_mem hr
  exact ((h.rounds.row hsplit p).built a ha).template

/-- Only the link stage has actions that merge. -/
theorem isActive_link (h : Assembled ctx plan paths before final) (hr : r ∈ before ++ [final])
    (ha : a ∈ r.row p) (hk : a.kind.arity = .merge) : ctx.stages.isActive .link = true := by
  obtain ⟨pre, post, hsplit⟩ := List.append_of_mem hr
  rw [← (h.rounds.row hsplit p).stage_eq_link ha hk]
  exact h.isActive_stage hr

/-- At every stage the actions of the device come first, and then those of the host. -/
theorem stage_eq_append (h : Assembled ctx plan paths before final) (s : Stage) :
    plan.actions.stage s = plan.actionsOf .device s ++ plan.actionsOf .host s := by
  cases hs : ctx.stages.isActive s with
  | false =>
    rw [h.stage_eq_nil hs, h.actionsOf_eq_nil hs, h.actionsOf_eq_nil hs]
    rfl
  | true =>
    obtain ⟨r, hr, rfl⟩ := h.exists_round hs
    rw [h.stage_of_mem hr, h.actionsOf_of_mem hr, h.actionsOf_of_mem hr]
    rfl

/-- What relates the rows of rounds relates the actions at their stages. -/
theorem rel_actionsOf {ctx' : AssemblyContext} {plan' : BuildPlan} {paths' : List Path}
    {before' rounds rounds' : List Round} {final' : Round}
    {R : Stage → List Action → List Action → Prop} (h : Assembled ctx plan paths before final)
    (h' : Assembled ctx' plan' paths' before' final') (hsub : rounds ⊆ before ++ [final])
    (hsub' : rounds' ⊆ before' ++ [final'])
    (hrows : List.Forall₂ (fun r r' => r.stage = r'.stage ∧ R r.stage (r.row p) (r'.row p)) rounds
      rounds') (hr : r ∈ rounds) :
    R r.stage (plan.actionsOf p r.stage) (plan'.actionsOf p r.stage) := by
  obtain ⟨i, hi, rfl⟩ := List.getElem_of_mem hr
  have hi' : i < rounds'.length := hrows.length_eq ▸ hi
  obtain ⟨hstage, hrow⟩ := hrows.get hi hi'
  rw [List.get_eq_getElem, List.get_eq_getElem] at hstage hrow
  have hactions : plan'.actionsOf p rounds[i].stage = rounds'[i].row p := by
    rw [hstage]
    exact h'.actionsOf_of_mem (hsub' (List.getElem_mem hi')) p
  rw [h.actionsOf_of_mem (hsub hr), hactions]
  exact hrow

theorem temporariesOf_eq (h : Assembled ctx plan paths before final) (p : Pipeline) :
    plan.temporariesOf p = before.flatMap (·.outputs p) := by
  have hstages : plan.stages = ctx.stages := h.rounds.stages_eq
  rw [BuildPlan.temporariesOf, hstages, h.activeStages_eq, List.dropLast_concat, List.flatMap_map]
  refine List.flatMap_congr fun r hr => ?_
  rw [h.actionsOf_of_mem (List.mem_append_left _ hr)]
  rfl

/-- Every temporary belongs to one of the pipelines. -/
theorem perm_temporariesOf (h : Assembled ctx plan paths before final) :
    (plan.temporariesOf .device ++ plan.temporariesOf .host).Perm paths := by
  rw [h.temporariesOf_eq, h.temporariesOf_eq, h.paths_eq_outputs]
  exact List.flatMap_append_perm _ _ _

theorem nodup_temporariesOf (h : Assembled ctx plan paths before final) (hn : paths.Nodup)
    (p : Pipeline) : (plan.temporariesOf p).Nodup := by
  have happend := h.perm_temporariesOf.nodup_iff.mpr hn
  rw [List.nodup_append'] at happend
  cases p with
  | device => exact happend.1
  | host => exact happend.2.1

end Assembled

/-- An action looks as it would on the file system that was there at the start. -/
theorem Assembler.template_of_assemble {a : Assembler} {settings : BuildSettings}
    {stages : StagePlan} {plan : BuildPlan} {w w' : Workspace} {paths : List Path}
    (h : (a.assemble settings stages).run w = (.ok plan, w'))
    (hpaths : w'.arena.paths = w.arena.paths ++ paths) :
    ∀ action ∈ plan.actions.toList,
      (action.kind = .deviceLink → settings.config.LibraryClear w.fs paths) →
        settings.template w.fs action.kind = .ok action.template := by
  intro action hm hclear
  -- It was built on a file system in between, where some of the temporaries were there.
  obtain ⟨mid, kind, units, ⟨first, hfirst, hbefore⟩, ⟨rest, hrest, -⟩, hbuild⟩ :=
    builtBetween_of_assemble h action hm
  have hsub : first ⊆ paths := by
    have hsplit : w.arena.paths ++ paths = w.arena.paths ++ (first ++ rest) := by
      rw [← hpaths, hrest, hfirst, List.append_assoc]
    rw [List.append_cancel_left hsplit]
    exact List.subset_append_left _ _
  rw [← (Action.of_build_eq_ok hbuild).1]
  by_cases hlink : action.kind = .deviceLink
  · refine (BuildSettings.template_eq ?_).symm
    exact BuildSettings.deviceLibrary_eq hbefore fun q hq => hclear hlink q (hsub hq)
  · exact (BuildSettings.template_eq_of_ne hlink).symm

/-- A plan that was assembled from an empty registry, on this file system and with temporaries in
this directory. -/
structure AssembledIn (fs : FileSystem) (dir : Path) (ctx : AssemblyContext) (plan : BuildPlan)
    (paths : List Path) (before : List Round) (final : Round) : Prop
    extends Assembled ctx plan paths before final where
  answers : List.Forall₂ (Request.AnswersIn fs dir) ctx.requests paths
  created : ∃ fs', fs.Created paths fs'
  /-- The actions look as they would on the file system that was there at the start. -/
  template : ∀ a ∈ plan.actions.toList,
    (a.kind = .deviceLink → ctx.config.LibraryClear fs paths) →
      ctx.settings.template fs a.kind = .ok a.template

namespace AssemblyContext

variable {ctx : AssemblyContext} {w w' : Workspace} {plan : BuildPlan}

theorem mem_requests {r : Request} (h : r ∈ ctx.requests) :
    ∃ (q : Path) (f : Format), r = ⟨CompilationUnit.nameOf q, f.extension⟩ := by
  obtain ⟨s, -, hr⟩ := List.mem_flatMap.mp h
  obtain hr | hr := List.mem_append.mp hr
  all_goals
    obtain ⟨q, rfl⟩ := mem_requestsAt hr
    exact ⟨q, _, rfl⟩

theorem exists_answersIn {fs : FileSystem} {dir : Path} {paths : List Path}
    (h : List.Forall₂ (Request.AnswersIn fs dir) ctx.requests paths) : ∀ path ∈ paths,
    ∃ (q : Path) (f : Format),
      Request.AnswersIn fs dir ⟨CompilationUnit.nameOf q, f.extension⟩ path := by
  intro path hpath
  obtain ⟨i, hi, rfl⟩ := List.getElem_of_mem hpath
  have hi' : i < ctx.requests.length := h.length_eq ▸ hi
  have ha := h.get hi' hi
  obtain ⟨q, f, hq⟩ := mem_requests (List.getElem_mem hi')
  rw [List.get_eq_getElem, hq] at ha
  exact ⟨q, f, ha⟩

/-- A run from an empty registry, told by what was there at the start. -/
theorem assembledIn_of_run_eq_ok (ctx : AssemblyContext)
    (ha : StagePlan.Accepted ctx.config ctx.stages) (hw : w.arena.paths = [])
    (h : (Assembler.standard.assemble ctx.settings ctx.stages).run w = (.ok plan, w')) :
    ∃ before final, AssembledIn w.fs w.arena.dir ctx plan w'.arena.paths before final := by
  obtain ⟨-, paths, before, final, hpaths, hassembled⟩ := ctx.assembled_of_run_eq_ok ha h
  have harena : w'.arena.paths = paths := by
    rw [(Workspace.allocateAll_ok hpaths).1, hw, List.nil_append]
  have hanswers := Workspace.answersIn_of_allocateAll hpaths
  have hgrows := Assembler.standard.grows_assemble ctx.settings ctx.stages w
  rw [h] at hgrows
  obtain ⟨created, hcreated, hfs⟩ := hgrows
  have hall : created = paths := by
    rw [← harena, hcreated, hw, List.nil_append]
  subst hall
  rw [harena]
  exact ⟨before, final, hassembled, hanswers, ⟨_, hfs⟩,
    Assembler.template_of_assemble h (by rw [harena, hw, List.nil_append])⟩

end AssemblyContext

/-- Twins in one form. -/
def TwinArtifacts (fs : FileSystem) (dir q q' : Path) : Prop :=
  Twins fs dir q q' ∧ Format.ofPath? q' = Format.ofPath? q

/-- What two runs have drawn for the same requests are twins, and in the form asked for. -/
theorem forall₂_twinArtifacts {fs : FileSystem} {dir : Path} {requests : List Request}
    {paths paths' : List Path}
    (hr : ∀ r ∈ requests, ∃ (q : Path) (f : Format), r = ⟨CompilationUnit.nameOf q, f.extension⟩)
    (h : List.Forall₂ (Request.AnswersIn fs dir) requests paths)
    (h' : List.Forall₂ (Request.AnswersIn fs dir) requests paths') :
    List.Forall₂ (TwinArtifacts fs dir) paths paths' := by
  induction h generalizing paths' with
  | nil =>
    cases h'
    exact .nil
  | cons hq _ ih =>
    cases h' with
    | cons hq' hrest =>
      obtain ⟨⟨source, f, rfl⟩, hothers⟩ := List.forall_mem_cons.mp hr
      have hformat := hq.answers.format
      have hformat' := hq'.answers.format
      obtain ⟨t, rfl⟩ := hq
      obtain ⟨t', rfl⟩ := hq'
      exact .cons ⟨⟨_, t, t', rfl, rfl⟩, hformat'.trans hformat.symm⟩ (ih hothers hrest)

theorem AssemblyContext.requestsAt_congr {ctx ctx' : AssemblyContext} {p : Pipeline}
    (hs : ctx'.stages = ctx.stages) (h : ctx.settings.AgreeOn p ctx'.settings) (s : Stage) :
    ctx'.requestsAt s p = ctx.requestsAt s p := by
  have hpipeline : ctx'.config.pipeline p = ctx.config.pipeline p := h.pipeline
  have hstages : ctx'.config.stages = ctx.config.stages := h.stages
  have hformat : ctx'.tempFormat s = ctx.tempFormat s := by
    unfold tempFormat
    rw [hstages]
  rw [requestsAt, requestsAt, finalFor, finalFor, unitNames, unitNames, hs, hpipeline, hformat]

namespace AssembledIn

variable {fs : FileSystem} {dir : Path} {ctx ctx' : AssemblyContext} {plan plan' : BuildPlan}
  {paths paths' : List Path} {before before' : List Round} {final final' : Round} {p : Pipeline}

theorem stages_eq (h : AssembledIn fs dir ctx plan paths before final)
    (h' : AssembledIn fs dir ctx' plan' paths' before' final') (hs : ctx'.stages = ctx.stages) :
    before.map (·.stage) = before'.map (·.stage) ∧ final.stage = final'.stage := by
  have heq := h'.activeStages_eq
  rw [hs, h.activeStages_eq] at heq
  obtain ⟨hbefore, hfinal⟩ := List.append_inj' heq rfl
  exact ⟨hbefore, List.singleton_inj.mp hfinal⟩

/-- What two runs draw at a stage for the same requests are twins. -/
theorem forall₂_round_twin (h : AssembledIn fs dir ctx plan paths before final)
    (h' : AssembledIn fs dir ctx' plan' paths' before' final') {r r' : Round} (hr : r ∈ before)
    (hr' : r' ∈ before')
    (hrequests : ctx'.requestsAt r'.stage p = ctx.requestsAt r.stage p) :
    List.Forall₂ (TwinArtifacts fs dir) (r.outputs p) (r'.outputs p) := by
  have hdrawn := h.forall₂_outputs h.answers hr p
  have hdrawn' := h'.forall₂_outputs h'.answers hr' p
  rw [hrequests] at hdrawn'
  refine forall₂_twinArtifacts (fun request hrequest => ?_) hdrawn hdrawn'
  obtain ⟨q, hq⟩ := AssemblyContext.mem_requestsAt hrequest
  exact ⟨q, _, hq⟩

/-- Stage by stage, the pipeline draws twins in the two runs. -/
theorem forall₂_outputs_twin (h : AssembledIn fs dir ctx plan paths before final)
    (h' : AssembledIn fs dir ctx' plan' paths' before' final') (hs : ctx'.stages = ctx.stages)
    (hagree : ctx.settings.AgreeOn p ctx'.settings) :
    List.Forall₂ (fun r r' => r.stage = r'.stage ∧
      List.Forall₂ (TwinArtifacts fs dir) (r.outputs p) (r'.outputs p)) before before' := by
  refine forall₂_of_mem (forall₂_of_map_eq (h.stages_eq h' hs).1) ?_
  intro r hr r' hr' hstage
  refine ⟨hstage, h.forall₂_round_twin h' hr hr' ?_⟩
  rw [AssemblyContext.requestsAt_congr hs hagree, ← hstage]

theorem forall₂_temporariesOf (h : AssembledIn fs dir ctx plan paths before final)
    (h' : AssembledIn fs dir ctx' plan' paths' before' final') (hs : ctx'.stages = ctx.stages)
    (hagree : ctx.settings.AgreeOn p ctx'.settings) :
    List.Forall₂ (TwinArtifacts fs dir) (plan.temporariesOf p) (plan'.temporariesOf p) := by
  rw [h.temporariesOf_eq, h'.temporariesOf_eq]
  exact List.rel_flatMap (h.forall₂_outputs_twin h' hs hagree) fun _ _ hround => hround.2

theorem zip_temporariesOf (h : AssembledIn fs dir ctx plan paths before final)
    (h' : AssembledIn fs dir ctx' plan' paths' before' final') (hs : ctx'.stages = ctx.stages)
    (hagree : ctx.settings.AgreeOn p ctx'.settings) :
    (plan.temporariesOf p).zip (plan'.temporariesOf p) =
      (before.zip before').flatMap fun e => (e.1.outputs p).zip (e.2.outputs p) := by
  rw [h.temporariesOf_eq, h'.temporariesOf_eq]
  exact zip_flatMap ((h.forall₂_outputs_twin h' hs hagree).imp fun _ _ hround => hround.2.length_eq)

/-- Round by round, the outputs of the pipeline before the last stage are the same files. -/
theorem forall₂_outputs_same (h : AssembledIn fs dir ctx plan paths before final)
    (h' : AssembledIn fs dir ctx' plan' paths' before' final') (hs : ctx'.stages = ctx.stages)
    (hagree : ctx.settings.AgreeOn p ctx'.settings) :
    List.Forall₂ (fun r r' => r.stage = r'.stage ∧
      List.Forall₂ (SameFile (ctx.config.pipeline p).files (plan.temporariesOf p)
        (plan'.temporariesOf p)) (r.outputs p) (r'.outputs p)) before before' := by
  have htwins := h.forall₂_outputs_twin h' hs hagree
  refine List.forall₂_iff_zip.mpr ⟨htwins.length_eq, fun {r r'} hmem => ?_⟩
  obtain ⟨hstage, hround⟩ := List.forall₂_zip htwins hmem
  refine ⟨hstage, List.forall₂_iff_zip.mpr ⟨hround.length_eq, fun hq => .drawn ?_⟩⟩
  rw [h.zip_temporariesOf h' hs hagree]
  exact List.mem_flatMap.mpr ⟨(r, r'), hmem, hq⟩

theorem nodup (h : AssembledIn fs dir ctx plan paths before final) : paths.Nodup := by
  obtain ⟨_, hcreated⟩ := h.created
  exact hcreated.nodup.of_map _

/-- Where the temporaries lie. -/
theorem temporaryPlace (h : AssembledIn fs dir ctx plan paths before final) :
    ∀ q ∈ paths, TemporaryPlace fs dir q.location := by
  intro q hq
  obtain ⟨_, _, hanswer⟩ := AssemblyContext.exists_answersIn h.answers q hq
  exact hanswer.temporaryPlace

/-- A path leads to no temporary, if something is there at the start, or if no temporary of the
directory can be called so. -/
theorem place_not_mem (h : AssembledIn fs dir ctx plan paths before final) {q : Path}
    (hq : fs.node? (fs.place q) ≠ none ∨ ¬ TemporaryPlace fs dir (fs.place q)) :
    q ∉ paths ∧ fs.place q ∉ paths.map Path.location := by
  obtain ⟨_, hcreated⟩ := h.created
  have hplace : fs.place q ∉ paths.map Path.location := by
    intro hm
    obtain ⟨path, hpath, hloc⟩ := List.mem_map.mp hm
    rcases hq with hstands | hfree
    · exact hstands (hloc ▸ hcreated.vacant path hpath)
    · exact hfree (hloc ▸ h.temporaryPlace path hpath)
  refine ⟨fun hm => hplace ?_, hplace⟩
  rw [fs.place_of_isAbsolute (hcreated.isAbsolute q hm)]
  exact List.mem_map_of_mem hm

theorem fileName (h : AssembledIn fs dir ctx plan paths before final) :
    ∀ q ∈ paths, ∃ rest, q.fileName = some (Utf8.encode "ac" ++ rest) := by
  intro q hq
  obtain ⟨_, _, hanswer⟩ := AssemblyContext.exists_answersIn h.answers q hq
  exact hanswer.fileName

theorem exists_fileName (h : AssembledIn fs dir ctx plan paths before final) :
    ∀ q ∈ paths, ∃ name, q.fileName = some name := by
  intro q hq
  obtain ⟨rest, hname⟩ := h.fileName q hq
  exact ⟨_, hname⟩

/-- Round by round, the actions of the pipeline are matched. -/
theorem forall₂_rows (h : AssembledIn fs dir ctx plan paths before final)
    (h' : AssembledIn fs dir ctx' plan' paths' before' final') (hs : ctx'.stages = ctx.stages)
    (hagree : ctx.settings.AgreeOn p ctx'.settings) :
    List.Forall₂ (fun r r' => r.stage = r'.stage ∧
      List.Forall₂ (Action.Matched (SameFile (ctx.config.pipeline p).files (plan.temporariesOf p)
        (plan'.temporariesOf p))) (r.row p) (r'.row p)) (before ++ [final])
      (before' ++ [final']) := by
  have hpipeline : ctx'.config.pipeline p = ctx.config.pipeline p := hagree.pipeline
  have hdrawn := h.forall₂_temporariesOf h' hs hagree
  have hformat : ∀ q q', SameFile (ctx.config.pipeline p).files (plan.temporariesOf p)
      (plan'.temporariesOf p) q q' → Format.ofPath? q' = Format.ofPath? q := by
    intro q q' hq
    cases hq with
    | configured _ => rfl
    | drawn hq => exact (List.forall₂_zip hdrawn hq).2
  have hsources : List.Forall₂ (SameFile (ctx.config.pipeline p).files (plan.temporariesOf p)
      (plan'.temporariesOf p)) (ctx.sourcePaths p) (ctx'.sourcePaths p) := by
    rw [AssemblyContext.sourcePaths, AssemblyContext.sourcePaths, hpipeline, List.forall₂_same]
    exact fun q hq => .configured (List.mem_append_left _ hq)
  have hfinals : List.Forall₂ (SameFile (ctx.config.pipeline p).files (plan.temporariesOf p)
      (plan'.temporariesOf p)) (final.outputs p) (final'.outputs p) := by
    rw [h.outputs_final, h'.outputs_final, hpipeline, List.forall₂_same]
    exact fun q hq => .configured (List.mem_append_right _ hq)
  exact (h.strand p).matched (h'.strand p) hsources (h.forall₂_outputs_same h' hs hagree)
    ⟨(h.stages_eq h' hs).2, hfinals⟩ hformat fun _ _ hq => hq

/-- What holds of matched actions holds of the actions of a stage one by one. -/
theorem forall₂_actionsOf (h : AssembledIn fs dir ctx plan paths before final)
    (h' : AssembledIn fs dir ctx' plan' paths' before' final') (hs : ctx'.stages = ctx.stages)
    (hagree : ctx.settings.AgreeOn p ctx'.settings) {Q : Action → Action → Prop} {s : Stage}
    (hQ : ∀ r ∈ before ++ [final], r.stage = s → ∀ r' ∈ before' ++ [final'], ∀ a ∈ r.row p,
      ∀ a' ∈ r'.row p, a.Matched (SameFile (ctx.config.pipeline p).files (plan.temporariesOf p)
        (plan'.temporariesOf p)) a' → Q a a') :
    List.Forall₂ Q (plan.actionsOf p s) (plan'.actionsOf p s) := by
  cases hactive : ctx.stages.isActive s with
  | false =>
    rw [h.actionsOf_eq_nil hactive, h'.actionsOf_eq_nil (hs ▸ hactive)]
    exact .nil
  | true =>
    obtain ⟨r, hr, rfl⟩ := h.exists_round hactive
    refine h.rel_actionsOf
      (R := fun stage acts acts' => stage = r.stage → List.Forall₂ Q acts acts')
      h'.toAssembled (fun _ hr => hr) (fun _ hr => hr) ?_ hr rfl
    refine forall₂_of_mem (h.forall₂_rows h' hs hagree) fun r₁ hr₁ r₂ hr₂ hround =>
      ⟨hround.1, fun hstage => ?_⟩
    exact forall₂_of_mem hround.2 fun a ha a' ha' => hQ r₁ hr₁ hstage r₂ hr₂ a ha a' ha'

/-- Actions of one kind look alike, if for device links no temporary can be the library. -/
theorem template_eq (h : AssembledIn fs dir ctx plan paths before final)
    (h' : AssembledIn fs dir ctx' plan' paths' before' final')
    (hagree : ctx.settings.AgreeOn p ctx'.settings) {r r' : Round} (hr : r ∈ before ++ [final])
    (hr' : r' ∈ before' ++ [final']) {a a' : Action} (ha : a ∈ r.row p) (ha' : a' ∈ r'.row p)
    (hk : a'.kind = a.kind)
    (hclear : a.kind = .deviceLink →
      ctx.config.LibraryClear fs paths ∧ ctx'.config.LibraryClear fs paths') :
    a'.template = a.template := by
  obtain ⟨format, hd⟩ := h.exists_dispatch hr ha
  have ht := h.template a (h.mem_toList hr ha) fun hlink => (hclear hlink).1
  have ht' := h'.template a' (h'.mem_toList hr' ha') fun hlink =>
    (hclear (hk.symm.trans hlink)).2
  rw [hk, hagree.template hd, ht] at ht'
  exact (Except.ok.inj ht').symm

/-- The actions of a stage are alike, if for device links no temporary can be the library. -/
theorem forall₂_alike (h : AssembledIn fs dir ctx plan paths before final)
    (h' : AssembledIn fs dir ctx' plan' paths' before' final') (hs : ctx'.stages = ctx.stages)
    (hagree : ctx.settings.AgreeOn p ctx'.settings) (s : Stage)
    (hclear : p = .device → s = .link → ctx.stages.isActive s = true →
      ctx.config.LibraryClear fs paths ∧ ctx'.config.LibraryClear fs paths') :
    List.Forall₂ (Action.Alike (SameFile (ctx.config.pipeline p).files (plan.temporariesOf p)
      (plan'.temporariesOf p))) (plan.actionsOf p s) (plan'.actionsOf p s) := by
  refine h.forall₂_actionsOf h' hs hagree ?_
  rintro r hr rfl r' hr' a ha a' ha' hmatched
  refine ⟨hmatched, h.template_eq h' hagree hr hr' ha ha' hmatched.kind fun hk => ?_⟩
  obtain ⟨hp, hlink⟩ := h.of_kind_deviceLink hr ha hk
  exact hclear hp hlink (h.isActive_stage hr)

/-- Device links are alike but for the library at their ends. -/
theorem forall₂_withLibrary (h : AssembledIn fs dir ctx plan paths before final)
    (h' : AssembledIn fs dir ctx' plan' paths' before' final') (hs : ctx'.stages = ctx.stages)
    (hagree : ctx.settings.AgreeOn .device ctx'.settings) :
    List.Forall₂ (fun a a' => ∃ library, a.Alike (SameFile (ctx.config.pipeline .device).files
        (plan.temporariesOf .device) (plan'.temporariesOf .device)) (a'.withLibrary library))
      (plan.actionsOf .device .link) (plan'.actionsOf .device .link) := by
  refine h.forall₂_actionsOf h' hs hagree ?_
  intro r hr hlink r' hr' a ha a' ha' hmatched
  obtain ⟨fs₁, ht⟩ := h.exists_template hr ha
  obtain ⟨fs₂, ht'⟩ := h'.exists_template hr' ha'
  have hk : a.kind = .deviceLink := h.kind_of_link hr hlink ha
  rw [hk] at ht
  rw [hmatched.kind, hk] at ht'
  exact ⟨_, hmatched.withLibrary _, Action.template_withLibrary hagree.tools ht ht'⟩

/-- Two runs from one place, with configurations that agree on a pipeline, make the same plan in
this pipeline. -/
theorem samePart (h : AssembledIn fs dir ctx plan paths before final)
    (h' : AssembledIn fs dir ctx' plan' paths' before' final') (hs : ctx'.stages = ctx.stages)
    (hagree : ctx.settings.AgreeOn p ctx'.settings) :
    SamePart fs dir ctx.config p plan plan' where
  temporaries := (h.forall₂_temporariesOf h' hs hagree).imp fun _ _ hq => hq.1
  nodup := ⟨h.nodup_temporariesOf h.nodup p, h'.nodup_temporariesOf h'.nodup p⟩
  actions s hkeeps := by
    refine h.forall₂_alike h' hs hagree s fun hp hlink _ => ?_
    subst hp
    have hown := hkeeps rfl hlink
    have hother : ctx'.config.KeepsLibrary fs dir := fun loc hm =>
      hown loc (hagree.missedPlaces fs ▸ hm)
    exact ⟨hown.clear h.temporaryPlace, hother.clear h'.temporaryPlace⟩
  deviceLink hp := by
    subst hp
    exact h.forall₂_withLibrary h' hs hagree

/-- What the pipeline draws in the two runs is matched as the temporaries of the runs are. -/
theorem zip_temporariesOf_subset (h : AssembledIn fs dir ctx plan paths before final)
    (h' : AssembledIn fs dir ctx' plan' paths' before' final') (hs : ctx'.stages = ctx.stages)
    (hagree : ∀ p, ctx.settings.AgreeOn p ctx'.settings) (p : Pipeline) :
    (plan.temporariesOf p).zip (plan'.temporariesOf p) ⊆ paths.zip paths' := by
  have hdevice := (h.forall₂_outputs_twin h' hs (hagree .device)).imp
    fun _ _ hround => hround.2.length_eq
  have hhost := (h.forall₂_outputs_twin h' hs (hagree .host)).imp
    fun _ _ hround => hround.2.length_eq
  have hround : List.Forall₂ (fun r r' => (r.outputs .device ++ r.outputs .host).length =
      (r'.outputs .device ++ r'.outputs .host).length) before before' := by
    refine List.Forall₂.mp (fun r r' hd hh => ?_) hdevice hhost
    rw [List.length_append, List.length_append, hd, hh]
  rw [h.zip_temporariesOf h' hs (hagree p), h.paths_eq_outputs, h'.paths_eq_outputs,
    zip_flatMap hround]
  intro e he
  obtain ⟨⟨r, r'⟩, hmem, he⟩ := List.mem_flatMap.mp he
  refine List.mem_flatMap.mpr ⟨(r, r'), hmem, ?_⟩
  dsimp only at he ⊢
  rw [List.zip_append (List.forall₂_zip hdevice hmem)]
  cases p with
  | device => exact List.mem_append_left _ he
  | host => exact List.mem_append_right _ he

/-- Where the configurations agree on both pipelines, the plans are alike stage by stage. -/
theorem forall₂_stage (h : AssembledIn fs dir ctx plan paths before final)
    (h' : AssembledIn fs dir ctx' plan' paths' before' final') (hs : ctx'.stages = ctx.stages)
    (hagree : ∀ p, ctx.settings.AgreeOn p ctx'.settings)
    (hclear : ctx.stages.isActive .link = true →
      ctx.config.LibraryClear fs paths ∧ ctx'.config.LibraryClear fs paths') (s : Stage) :
    List.Forall₂ (Action.Alike (SameFile ctx.config.files paths paths')) (plan.actions.stage s)
      (plan'.actions.stage s) := by
  have hpart (p : Pipeline) :
      List.Forall₂ (Action.Alike (SameFile ctx.config.files paths paths')) (plan.actionsOf p s)
        (plan'.actionsOf p s) := by
    have halike := h.forall₂_alike h' hs (hagree p) s
      fun _ hlink hactive => hclear (hlink ▸ hactive)
    refine halike.imp fun a a' ha => ha.mono fun q q' hq => ?_
    exact hq.mono (ctx.config.files_subset p) (h.zip_temporariesOf_subset h' hs hagree p)
  rw [h.stage_eq_append, h'.stage_eq_append]
  exact List.rel_append (hpart .device) (hpart .host)

theorem forall₂_toList (h : AssembledIn fs dir ctx plan paths before final)
    (h' : AssembledIn fs dir ctx' plan' paths' before' final') (hs : ctx'.stages = ctx.stages)
    (hagree : ∀ p, ctx.settings.AgreeOn p ctx'.settings)
    (hclear : ctx.stages.isActive .link = true →
      ctx.config.LibraryClear fs paths ∧ ctx'.config.LibraryClear fs paths') :
    List.Forall₂ (Action.Alike (SameFile ctx.config.files paths paths')) plan.actions.toList
      plan'.actions.toList := by
  refine List.rel_flatMap (R := Eq) (List.forall₂_same.mpr fun _ _ => rfl) ?_
  rintro s _ rfl
  exact h.forall₂_stage h' hs hagree hclear s

end AssembledIn

namespace Config

theorem accepts_sources_iff (c : Config) :
    (∀ source ∈ c.sources, source.1.AcceptsSource source.2) ↔
      ∀ p, ∀ q ∈ (c.pipeline p).inputs, p.AcceptsSource q := by
  constructor
  · exact fun h p q hq => h (p, q) (mem_sources_iff.mpr hq)
  · exact fun h source hs => h source.1 source.2 (mem_sources_iff.mp hs)

/-- The first source that its pipeline does not take. -/
def firstRejected? (c : Config) : Option (Pipeline × Path) :=
  c.sources.find? fun source => !decide (source.1.AcceptsSource source.2)

theorem firstRejected?_eq_none_iff {c : Config} :
    c.firstRejected? = none ↔ ∀ p, ∀ q ∈ (c.pipeline p).inputs, p.AcceptsSource q := by
  rw [firstRejected?, List.find?_eq_none, ← c.accepts_sources_iff]
  simp

end Config

namespace Build

/-- The system has refused to make a temporary. -/
def AllocationFails (outcome : Except PipelineError BuildPlan × Workspace) : Prop :=
  ∃ source, outcome.1 = .error (.tempArtifact source)

variable {env : Environment} {c : Config} {stages : StagePlan} {fs : FileSystem}
  {names names' : NameSupply} {plan plan' : BuildPlan} {w w' : Workspace}

theorem assembledIn_of_assemble (hr : StagePlan.resolve c = .ok stages)
    (h : assemble env stages c fs names = (.ok plan, w)) :
    ∃ before final, AssembledIn fs (c.tempDir.getD env.tempDir)
      ⟨⟨c, Toolchain.locate env fs c.toolchain⟩, stages⟩ plan w.arena.paths before final := by
  let ctx : AssemblyContext := ⟨⟨c, Toolchain.locate env fs c.toolchain⟩, stages⟩
  let start : Workspace := ⟨fs, names, { dir := c.tempDir.getD env.tempDir }⟩
  have ha : StagePlan.Accepted ctx.config ctx.stages := StagePlan.accepted_of_resolve hr
  have hrun : (Assembler.standard.assemble ctx.settings ctx.stages).run start = (.ok plan, w) := h
  exact ctx.assembledIn_of_run_eq_ok ha rfl hrun

/-- The names of all temporaries open alike. -/
theorem fileName_of_assemble (hr : StagePlan.resolve c = .ok stages)
    (h : assemble env stages c fs names = (.ok plan, w)) :
    ∀ q ∈ w.arena.paths, ∃ rest, q.fileName = some (Utf8.encode "ac" ++ rest) := by
  obtain ⟨before, final, hrun⟩ := assembledIn_of_assemble hr h
  exact hrun.fileName

/-- But for refused allocations, the outcome of assembly depends on the sources alone. -/
theorem result_assemble (hr : StagePlan.resolve c = .ok stages)
    (hn : ¬ AllocationFails (assemble env stages c fs names)) :
    (assemble env stages c fs names).1.map (fun _ => ()) =
      match c.firstRejected? with
      | none => .ok ()
      | some (p, q) => .error (.unrecognizedInputFormat q p .compile) := by
  let ctx : AssemblyContext := ⟨⟨c, Toolchain.locate env fs c.toolchain⟩, stages⟩
  have ha : StagePlan.Accepted ctx.config ctx.stages := StagePlan.accepted_of_resolve hr
  rcases hrun : assemble env stages c fs names with ⟨e | plan, w⟩
  · cases ctx.failure_of_run_eq_error ha hrun with
    | refused => exact absurd ⟨_, by rw [hrun]⟩ hn
    | @unrecognized before after p q hs hk hreject _ =>
      have hfirst : c.firstRejected? = some (p, q) := by
        refine List.find?_eq_some_iff_append.mpr ⟨by simpa using hreject, before, after, hs, ?_⟩
        exact fun source hm => by simpa using hk source hm
      rw [hfirst]
      rfl
  · have hnone : c.firstRejected? = none := by
      rw [Config.firstRejected?_eq_none_iff, ← c.accepts_sources_iff]
      exact ((ctx.exists_run_eq_ok_iff ha).mp ⟨plan, w, hrun⟩).1
    rw [hnone]
    rfl

theorem exists_assemble_eq_ok_iff (hr : StagePlan.resolve c = .ok stages)
    (hn : ¬ AllocationFails (assemble env stages c fs names)) :
    (∃ plan, (assemble env stages c fs names).1 = .ok plan) ↔ c.firstRejected? = none := by
  have hresult := result_assemble hr hn
  cases hf : c.firstRejected? with
  | none =>
    rw [hf] at hresult
    cases hrun : (assemble env stages c fs names).1 with
    | error e =>
      rw [hrun] at hresult
      cases hresult
    | ok plan => exact ⟨fun _ => rfl, fun _ => ⟨plan, rfl⟩⟩
  | some source =>
    rw [hf] at hresult
    cases hrun : (assemble env stages c fs names).1 with
    | error e => simp
    | ok plan =>
      rw [hrun] at hresult
      cases hresult

/-- Whatever tokens are drawn, runs in which no allocation is refused end in the same error, or
both of them in a plan. -/
theorem assemble_ends_alike (hr : StagePlan.resolve c = .ok stages)
    (hn : ¬ AllocationFails (assemble env stages c fs names))
    (hn' : ¬ AllocationFails (assemble env stages c fs names')) :
    (∃ e w w', assemble env stages c fs names = (.error e, w) ∧
      assemble env stages c fs names' = (.error e, w')) ∨
    ∃ plan plan' w w', assemble env stages c fs names = (.ok plan, w) ∧
      assemble env stages c fs names' = (.ok plan', w') := by
  have hresult := (result_assemble hr hn).trans (result_assemble hr hn').symm
  rcases ha : assemble env stages c fs names with ⟨e | plan, w⟩
  all_goals
    rcases ha' : assemble env stages c fs names' with ⟨e' | plan', w'⟩
    all_goals
      rw [ha, ha'] at hresult
  · obtain rfl : e = e' := Except.error.inj hresult
    exact Or.inl ⟨e, w, w', rfl, rfl⟩
  · cases hresult
  · cases hresult
  · exact Or.inr ⟨plan, plan', w, w', rfl, rfl⟩

theorem forall₂_twins (hr : StagePlan.resolve c = .ok stages)
    (h : assemble env stages c fs names = (.ok plan, w))
    (h' : assemble env stages c fs names' = (.ok plan', w')) :
    List.Forall₂ (Twins fs (c.tempDir.getD env.tempDir)) w.arena.paths w'.arena.paths := by
  obtain ⟨before, final, hrun⟩ := assembledIn_of_assemble hr h
  obtain ⟨before', final', hrun'⟩ := assembledIn_of_assemble hr h'
  have htwins := forall₂_twinArtifacts (fun _ => AssemblyContext.mem_requests) hrun.answers
    hrun'.answers
  exact htwins.imp fun _ _ hq => hq.1

end Build

end CompilerDriver
