import CompilerDriver.Proofs.PipelineIndependence
import CompilerDriver.Proofs.UnitStrands
import Mathlib.Data.Fin.Rev
import Mathlib.Logic.Equiv.Defs

/-!
# Units before link

The units of a pipeline go side by side up to link. What is done for one of them
is told by its source and by the settings, wherever it stands among the inputs
and whatever the other inputs are. Link is the first to see them together, and
takes them in the order of the inputs. It can tell them apart by one thing else:
the temporary of one of them may be found for the device library, if this is
called like a temporary and searched for among them.
-/
namespace CompilerDriver

/-- The configuration with other inputs for a pipeline. -/
def Config.withInputs (c : Config) (p : Pipeline) (inputs : List Path) : Config :=
  c.setPipeline p { c.pipeline p with inputs := inputs }

/-- The configuration is accepted and assembled in this place, with whatever tokens. -/
def AssemblesTo (tools : Toolchain) (fs : FileSystem) (dir : Path) (c : Config) (plan : BuildPlan)
    (temporaries : List Path) : Prop :=
  ∃ stages names w, StagePlan.resolve c = .ok stages ∧
    (Assembler.standard.assemble ⟨c, tools⟩ stages).run ⟨fs, names, { dir := dir }⟩ =
      (.ok plan, w) ∧ w.arena.paths = temporaries

/-- The unit at one place of a plan is treated as the unit at a place of another plan, which has
the same source. -/
structure SameUnit (fs : FileSystem) (dir : Path) (p : Pipeline) (source : Path)
    (plan plan' : BuildPlan) (i j : Nat) : Prop where
  /-- The temporaries of the unit correspond one to one, and differ in their tokens only. -/
  temporaries : List.Forall₂ (Twins fs dir) (plan.unlinkedAt p i) (plan'.unlinkedAt p j)
  nodup : (plan.unlinkedAt p i).Nodup ∧ (plan'.unlinkedAt p j).Nodup
  actions : ∀ s ∈ Stage.beforeLink, plan.stages.isActive s = true →
    ∃ a a', (plan.actionsOf p s)[i]? = some a ∧ (plan'.actionsOf p s)[j]? = some a' ∧
      a.Alike (SameFile [source] (plan.unlinkedAt p i) (plan'.unlinkedAt p j)) a'

/-- Two link actions, of which the second one takes the units in another order. -/
structure SameLink (fs : FileSystem) (dir : Path) (c : Config) (p : Pipeline)
    (plan plan' : BuildPlan) {n n' : Nat} (place : Fin n ≃ Fin n') (a a' : Action) : Prop where
  kind : a'.kind = a.kind
  /-- The library of a device link has to be out of reach of the temporaries. -/
  template : (p = .device → c.KeepsLibrary fs dir) → a'.template = a.template
  /-- In any case the library is all that can differ. -/
  deviceLink : p = .device → ∃ library, (a'.withLibrary library).template = a.template
  output : if plan.stages.isLast .link then a'.binding.output = a.binding.output
    else Twins fs dir a.binding.output a'.binding.output
  units : LinksUnits plan p a ∧ LinksUnits plan' p a'
  length : a.binding.inputs.length = n ∧ a'.binding.inputs.length = n'
  /-- An input at one place is the same file as the input at the place that it is moved to. -/
  moved : ∀ i : Fin n, ∃ q q', a.binding.inputs[i.val]? = some q ∧
    a'.binding.inputs[(place i).val]? = some q' ∧
    (q, q') ∈ (plan.unlinkedAt p i).zip (plan'.unlinkedAt p (place i))

/-- Two plans for the same inputs of a pipeline in different orders: the input at a place of the
first one is at `place` in the second. -/
structure InputsPermuted (fs : FileSystem) (dir : Path) (c : Config) (p : Pipeline)
    (inputs inputs' : List Path) (place : Fin inputs.length ≃ Fin inputs'.length)
    (plan plan' : BuildPlan) : Prop where
  length : ∀ s ∈ Stage.beforeLink, plan.stages.isActive s = true →
    (plan.actionsOf p s).length = inputs.length ∧ (plan'.actionsOf p s).length = inputs'.length
  units : ∀ i : Fin inputs.length, SameUnit fs dir p inputs[i] plan plan' i (place i)
  single : inputs ≠ [] → (plan.actionsOf p .link).length = 1
  link : List.Forall₂ (SameLink fs dir c p plan plan' place) (plan.actionsOf p .link)
    (plan'.actionsOf p .link)

/-- What is done for the units of a pipeline, where its inputs are otherwise others. -/
structure UnitsIndependent (tools : Toolchain) (fs : FileSystem) (dir : Path) (c : Config)
    (p : Pipeline) (plan : BuildPlan) : Prop where
  /-- A source is treated alike at every place among any inputs. -/
  unit : ∀ (inputs' : List Path) (plan' : BuildPlan) (temporaries' : List Path),
    AssemblesTo tools fs dir (c.withInputs p inputs') plan' temporaries' →
    ∀ i j q, (c.pipeline p).inputs[i]? = some q → inputs'[j]? = some q →
      SameUnit fs dir p q plan plan' i j
  /-- With the inputs in another order, so are the units and the inputs of link. -/
  permuted : ∀ (inputs' : List Path) (plan' : BuildPlan) (temporaries' : List Path),
    AssemblesTo tools fs dir (c.withInputs p inputs') plan' temporaries' →
    ∀ place : Fin (c.pipeline p).inputs.length ≃ Fin inputs'.length,
      (∀ i, inputs'[place i] = (c.pipeline p).inputs[i]) →
      InputsPermuted fs dir c p (c.pipeline p).inputs inputs' place plan plan'

namespace AssemblyContext

/-- What assembly can look up, with other inputs for a pipeline. -/
def withInputs (ctx : AssemblyContext) (p : Pipeline) (inputs : List Path) : AssemblyContext :=
  ⟨⟨ctx.config.withInputs p inputs, ctx.settings.tools⟩, ctx.stages⟩

variable (ctx : AssemblyContext) (p : Pipeline) (inputs : List Path)

theorem inputs_withInputs : ((ctx.withInputs p inputs).config.pipeline p).inputs = inputs := by
  cases p <;> rfl

theorem output_withInputs :
    ((ctx.withInputs p inputs).config.pipeline p).output = (ctx.config.pipeline p).output := by
  cases p <;> rfl

theorem tempFormat_withInputs (s : Stage) :
    (ctx.withInputs p inputs).tempFormat s = ctx.tempFormat s := by
  cases p <;> rfl

theorem requestsAt_link_withInputs :
    (ctx.withInputs p inputs).requestsAt .link p = ctx.requestsAt .link p := by
  cases p <;> rfl

theorem missedPlaces_withInputs (fs : FileSystem) :
    (ctx.withInputs p inputs).config.missedPlaces fs = ctx.config.missedPlaces fs := by
  cases p <;> rfl

theorem template_withInputs (fs : FileSystem) (kind : ActionKind) :
    (ctx.withInputs p inputs).settings.template fs kind = ctx.settings.template fs kind := by
  cases p <;> cases kind <;> rfl

end AssemblyContext

theorem exists_concat_of_forall₂ {α β : Type} {R : α → β → Prop} {xs : List α} {ys : List β}
    {x : α} (h : List.Forall₂ R (xs ++ [x]) ys) :
    ∃ ys' y, ys = ys' ++ [y] ∧ List.Forall₂ R xs ys' ∧ R x y := by
  obtain rfl | ⟨ys', y, rfl⟩ := ys.eq_nil_or_concat'
  · exact absurd h.length_eq (by simp)
  · have hlen := h.length_eq
    rw [List.length_append, List.length_append, List.length_singleton, List.length_singleton,
      Nat.add_right_cancel_iff] at hlen
    obtain ⟨hinit, hlast⟩ := forall₂_append_split h hlen
    cases hlast with
    | cons hlast _ => exact ⟨ys', y, rfl, hinit, hlast⟩

/-- Where lists correspond, their last entries are matched. -/
theorem getLast?_of_forall₂ {α β : Type} {R : α → β → Prop} {xs : List α} {ys : List β} {x : α}
    (h : List.Forall₂ R xs ys) (hx : xs.getLast? = some x) :
    ∃ y, ys.getLast? = some y ∧ (x, y) ∈ xs.zip ys := by
  obtain ⟨init, rfl⟩ := List.getLast?_eq_some_iff.mp hx
  obtain ⟨init', y, rfl, hinit, -⟩ := exists_concat_of_forall₂ h
  refine ⟨y, List.getLast?_concat, ?_⟩
  rw [List.zip_append hinit.length_eq]
  exact List.mem_append_right _ List.mem_cons_self

/-- Strands are matched, where they start alike and write alike in every round. -/
theorem Strand.matched_all {settings settings' : BuildSettings} {p : Pipeline}
    {front front' : List Path} {rounds rounds' : List Round} {R : Path → Path → Prop}
    (h : Strand settings p front rounds) (h' : Strand settings' p front' rounds')
    (hf : List.Forall₂ R front front')
    (ho : List.Forall₂ (fun r r' => r.stage = r'.stage ∧
      List.Forall₂ R (r.outputs p) (r'.outputs p)) rounds rounds')
    (hR : ∀ q q', R q q' → Format.ofPath? q' = Format.ofPath? q) :
    List.Forall₂ (fun r r' => r.stage = r'.stage ∧
      List.Forall₂ (Action.Matched R) (r.row p) (r'.row p)) rounds rounds' := by
  obtain rfl | ⟨init, last, rfl⟩ := rounds.eq_nil_or_concat'
  · cases ho
    exact .nil
  · obtain ⟨init', last', rfl, hinit, hlast⟩ := exists_concat_of_forall₂ ho
    exact h.matched h' hf hinit hlast hR fun _ _ hq => hq

namespace LinkedIn

variable {fs : FileSystem} {dir : Path} {ctx : AssemblyContext} {plan plan' : BuildPlan}
  {paths paths' : List Path} {units units' more more' : List Round} {link link' r : Round}
  {p : Pipeline} {inputs' : List Path} {i j : Nat} {q : Path}
  (h : LinkedIn fs dir ctx plan paths units link more)
  (h' : LinkedIn fs dir (ctx.withInputs p inputs') plan' paths' units' link' more')

include h h'

theorem forall₂_stage : List.Forall₂ (fun r r' => r.stage = r'.stage) units units' :=
  forall₂_of_map_eq (h.units.trans h'.units.symm)

/-- For one source at two places the runs draw twins, round by round. -/
theorem forall₂_outputs (hq : (ctx.config.pipeline p).inputs[i]? = some q)
    (hq' : inputs'[j]? = some q) :
    List.Forall₂ (fun r r' => r.stage = r'.stage ∧
      List.Forall₂ (TwinArtifacts fs dir) ((r.pick i).outputs p) ((r'.pick j).outputs p))
      units units' := by
  refine forall₂_of_mem (h.forall₂_stage h') fun r hr r' hr' hstage => ⟨hstage, ?_⟩
  obtain ⟨out, hout, hanswer⟩ := h.exists_output hr hq
  obtain ⟨out', hout', hanswer'⟩ :=
    h'.exists_output hr' ((ctx.inputs_withInputs p inputs').symm ▸ hq')
  rw [Round.outputs_pick, Round.outputs_pick, hout, hout']
  rw [ctx.tempFormat_withInputs, ← hstage] at hanswer'
  refine forall₂_twinArtifacts ?_ (List.Forall₂.cons hanswer .nil) (List.Forall₂.cons hanswer' .nil)
  exact fun request hm => ⟨q, _, List.mem_singleton.mp hm⟩

theorem forall₂_unlinkedAt (hq : (ctx.config.pipeline p).inputs[i]? = some q)
    (hq' : inputs'[j]? = some q) :
    List.Forall₂ (TwinArtifacts fs dir) (plan.unlinkedAt p i) (plan'.unlinkedAt p j) := by
  rw [h.unlinkedAt_eq, h'.unlinkedAt_eq]
  exact List.rel_flatMap (h.forall₂_outputs h' hq hq') fun _ _ hround => hround.2

/-- Actions of one kind look alike, if for device links no temporary can be the library. -/
theorem template_eq {r' : Round} (hr : r ∈ units ++ link :: more)
    (hr' : r' ∈ units' ++ link' :: more') {a a' : Action} (ha : a ∈ r.row p) (ha' : a' ∈ r'.row p)
    (hk : a'.kind = a.kind) (hkeeps : a.kind = .deviceLink → ctx.config.KeepsLibrary fs dir) :
    a'.template = a.template := by
  have ht := h.template_of_mem hr ha fun hlink => (hkeeps hlink).clear h.temporaryPlace
  have ht' := h'.template_of_mem hr' ha' fun hlink => by
    have hother : (ctx.withInputs p inputs').config.KeepsLibrary fs dir := fun loc hm =>
      hkeeps (hk.symm.trans hlink) loc (ctx.missedPlaces_withInputs p inputs' fs ▸ hm)
    exact hother.clear h'.temporaryPlace
  rw [hk, ctx.template_withInputs, ht] at ht'
  exact (Except.ok.inj ht').symm

/-- Round by round, the unit at one place is treated as the unit at the other. -/
theorem forall₂_rows (hq : (ctx.config.pipeline p).inputs[i]? = some q)
    (hq' : inputs'[j]? = some q) :
    List.Forall₂ (fun r r' => r.stage = r'.stage ∧ ∃ a a', (r.row p)[i]? = some a ∧
      (r'.row p)[j]? = some a' ∧
      a.Alike (SameFile [q] (plan.unlinkedAt p i) (plan'.unlinkedAt p j)) a') units units' := by
  have htwins := h.forall₂_outputs h' hq hq'
  have hdrawn := h.forall₂_unlinkedAt h' hq hq'
  have hzip : (plan.unlinkedAt p i).zip (plan'.unlinkedAt p j) =
      (units.zip units').flatMap fun e =>
        ((e.1.pick i).outputs p).zip ((e.2.pick j).outputs p) := by
    rw [h.unlinkedAt_eq, h'.unlinkedAt_eq]
    exact zip_flatMap (htwins.imp fun _ _ hround => hround.2.length_eq)
  have hformat : ∀ path path', SameFile [q] (plan.unlinkedAt p i) (plan'.unlinkedAt p j) path
      path' → Format.ofPath? path' = Format.ofPath? path := by
    rintro path path' (_ | hm)
    · rfl
    · exact (List.forall₂_zip hdrawn hm).2
  have hsame : List.Forall₂ (fun r r' => r.stage = r'.stage ∧ List.Forall₂
      (SameFile [q] (plan.unlinkedAt p i) (plan'.unlinkedAt p j)) ((r.pick i).outputs p)
        ((r'.pick j).outputs p)) units units' := by
    refine List.forall₂_iff_zip.mpr ⟨htwins.length_eq, fun {r r'} hm => ?_⟩
    obtain ⟨hstage, hround⟩ := List.forall₂_zip htwins hm
    refine ⟨hstage, List.forall₂_iff_zip.mpr ⟨hround.length_eq, fun hpath => .drawn ?_⟩⟩
    rw [hzip]
    exact List.mem_flatMap.mpr ⟨(r, r'), hm, hpath⟩
  have hstrand := (h.strand_units p).pick (fun r hr => h.stage_ne_link hr) i
  have hstrand' := (h'.strand_units p).pick (fun r hr => h'.stage_ne_link hr) j
  rw [AssemblyContext.sourcePaths, hq] at hstrand
  rw [AssemblyContext.sourcePaths, ctx.inputs_withInputs, hq'] at hstrand'
  have hmatched := hstrand.matched_all hstrand'
    (.cons (.configured (List.mem_singleton_self q)) .nil)
    (List.forall₂_map_left_iff.mpr (List.forall₂_map_right_iff.mpr hsame)) hformat
  have hrows := forall₂_rows_alike hmatched ?_
  · rw [List.forall₂_map_left_iff, List.forall₂_map_right_iff] at hrows
    refine forall₂_of_mem hrows fun r hr r' hr' hround => ⟨hround.1, ?_⟩
    obtain ⟨a, ha⟩ := h.exists_action hr hq
    obtain ⟨a', ha'⟩ := h'.exists_action hr' ((ctx.inputs_withInputs p inputs').symm ▸ hq')
    have halike := hround.2
    rw [Round.row_pick, Round.row_pick, ha, ha'] at halike
    cases halike with
    | cons halike _ => exact ⟨a, a', ha, ha', halike⟩
  · intro _ hm _ hm' a ha a' ha' hk
    obtain ⟨r, hr, rfl⟩ := List.mem_map.mp hm
    obtain ⟨r', hr', rfl⟩ := List.mem_map.mp hm'
    have hrow := Round.mem_row_of_mem_pick ha
    exact h.template_eq h' (List.mem_append_left _ hr) (List.mem_append_left _ hr') hrow
      (Round.mem_row_of_mem_pick ha') hk fun hlink => absurd hlink (h.kind_ne_deviceLink hr hrow)

theorem sameUnit (hq : (ctx.config.pipeline p).inputs[i]? = some q) (hq' : inputs'[j]? = some q) :
    SameUnit fs dir p q plan plan' i j where
  temporaries := (h.forall₂_unlinkedAt h' hq hq').imp fun _ _ htwin => htwin.1
  nodup := ⟨h.nodup_unlinkedAt p i, h'.nodup_unlinkedAt p j⟩
  actions s hs hactive := by
    obtain ⟨before, final, hrun, hsplit⟩ := h.run
    obtain ⟨before', final', hrun', hsplit'⟩ := h'.run
    obtain ⟨r, hr, rfl⟩ := h.exists_round hs (h.stages_eq ▸ hactive)
    exact hrun.rel_actionsOf (R := fun _ acts acts' => ∃ a a', acts[i]? = some a ∧
        acts'[j]? = some a' ∧
        a.Alike (SameFile [q] (plan.unlinkedAt p i) (plan'.unlinkedAt p j)) a')
      hrun'.toAssembled (hsplit ▸ List.subset_append_left _ _)
      (hsplit' ▸ List.subset_append_left _ _) (h.forall₂_rows h' hq hq') hr

/-- Where link is the last stage, both runs write the configured output there, and else twins. -/
theorem forall₂_outputs_link : List.Forall₂ (fun q q' => if ctx.stages.isLast .link then q' = q
    else Twins fs dir q q') (link.outputs p) (link'.outputs p) := by
  cases hl : ctx.stages.isLast .link with
  | true =>
    rw [h.outputs_link_of_isLast hl, h'.outputs_link_of_isLast hl, ctx.output_withInputs]
    exact List.forall₂_same.mpr fun _ _ => rfl
  | false =>
    obtain ⟨before, final, hrun, hm⟩ := h.exists_mem_link hl
    obtain ⟨before', final', hrun', hm'⟩ := h'.exists_mem_link hl
    have hrequests : (ctx.withInputs p inputs').requestsAt link'.stage p =
        ctx.requestsAt link.stage p := by
      rw [h.link, h'.link, ctx.requestsAt_link_withInputs]
    exact (hrun.forall₂_round_twin hrun' hm hm' hrequests).imp fun _ _ htwin => htwin.1

/-- Link takes the units in the order of the inputs, and is the same in all else. -/
theorem forall₂_row_link (place : Fin (ctx.config.pipeline p).inputs.length ≃ Fin inputs'.length)
    (hplace : ∀ i, inputs'[place i] = (ctx.config.pipeline p).inputs[i]) :
    List.Forall₂ (SameLink fs dir ctx.config p plan plan' place) (link.row p) (link'.row p) := by
  have houtputs := h.forall₂_outputs_link h'
  rw [Round.outputs, Round.outputs, List.forall₂_map_left_iff, List.forall₂_map_right_iff]
    at houtputs
  refine forall₂_of_mem houtputs fun a ha a' ha' hout => ?_
  have hkind : a'.kind = a.kind := (h'.kind_link ha').trans (h.kind_link ha).symm
  have hdevice : a.kind = .deviceLink → p = .device := fun hk => by
    rw [h.kind_link ha] at hk
    cases p with
    | device => rfl
    | host => cases hk
  have hmem : link ∈ units ++ link :: more := List.mem_append_right _ List.mem_cons_self
  have hmem' : link' ∈ units' ++ link' :: more' := List.mem_append_right _ List.mem_cons_self
  exact
    { kind := hkind
      template := fun hkeeps =>
        h.template_eq h' hmem hmem' ha ha' hkind fun hk => hkeeps (hdevice hk)
      deviceLink := fun hp => by
        subst hp
        obtain ⟨fs₁, ht⟩ := h.exists_template_link ha
        obtain ⟨fs₂, ht'⟩ := h'.exists_template_link ha'
        exact ⟨_, Action.template_withLibrary rfl ht ht'⟩
      output := by rw [h.stages_eq]; exact hout
      units := ⟨h.linksUnits ha, h'.linksUnits ha'⟩
      length := ⟨h.length_inputs_link ha, by
        rw [h'.length_inputs_link ha', ctx.inputs_withInputs]⟩
      moved := fun i => by
        have hi : (ctx.config.pipeline p).inputs[i.val]? = some (ctx.config.pipeline p).inputs[i] :=
          List.getElem?_eq_getElem i.isLt
        have hj : inputs'[(place i).val]? = some (ctx.config.pipeline p).inputs[i] := by
          rw [← hplace i]
          exact List.getElem?_eq_getElem (place i).isLt
        have hlast : i.val < a.binding.inputs.length := by
          rw [h.length_inputs_link ha]
          exact i.isLt
        have hq := List.getElem?_eq_getElem hlast
        have hunit := hq
        rw [h.inputs_link ha] at hunit
        obtain ⟨q', hq', hm⟩ := getLast?_of_forall₂ (h.forall₂_unlinkedAt h' hi hj) hunit
        exact ⟨_, q', hq, (h'.inputs_link ha' _).trans hq', hm⟩ }

theorem inputsPermuted
    (place : Fin (ctx.config.pipeline p).inputs.length ≃ Fin inputs'.length)
    (hplace : ∀ i, inputs'[place i] = (ctx.config.pipeline p).inputs[i]) :
    InputsPermuted fs dir ctx.config p (ctx.config.pipeline p).inputs inputs' place plan plan'
    where
  length s hs hactive := by
    rw [h.stages_eq] at hactive
    refine ⟨h.length_actionsOf hs hactive p, ?_⟩
    rw [h'.length_actionsOf hs hactive, ctx.inputs_withInputs]
  units i := by
    refine h.sameUnit h' (List.getElem?_eq_getElem i.isLt) ?_
    rw [List.getElem?_eq_getElem (place i).isLt]
    exact congrArg some (hplace i)
  single hp := by
    obtain ⟨a, ha⟩ := h.exists_row_link hp
    rw [h.actionsOf_link, ha]
    rfl
  link := by
    rw [h.actionsOf_link, h'.actionsOf_link]
    exact h.forall₂_row_link h' place hplace

end LinkedIn

namespace AssemblesTo

variable {tools : Toolchain} {fs : FileSystem} {dir : Path} {c : Config} {plan : BuildPlan}
  {temporaries : List Path}

theorem exists_assembledIn (h : AssemblesTo tools fs dir c plan temporaries) :
    ∃ before final, AssembledIn fs dir ⟨⟨c, tools⟩, StagePlan.ofOptions c.stages⟩ plan temporaries
      before final := by
  obtain ⟨stages, names, w, hr, hrun, rfl⟩ := h
  obtain rfl := (StagePlan.eq_ofOptions_of_resolve hr).1
  exact AssemblyContext.assembledIn_of_run_eq_ok ⟨⟨c, tools⟩, StagePlan.ofOptions c.stages⟩
    (StagePlan.accepted_of_resolve hr) rfl hrun

theorem stages_eq (h : AssemblesTo tools fs dir c plan temporaries) :
    plan.stages = StagePlan.ofOptions c.stages := by
  obtain ⟨before, final, hrun⟩ := h.exists_assembledIn
  exact hrun.rounds.stages_eq

theorem exists_linkedIn (h : AssemblesTo tools fs dir c plan temporaries)
    (hlink : plan.stages.isActive .link = true) :
    ∃ units link more, LinkedIn fs dir ⟨⟨c, tools⟩, StagePlan.ofOptions c.stages⟩ plan temporaries
      units link more := by
  obtain ⟨before, final, hrun⟩ := h.exists_assembledIn
  exact hrun.exists_linkedIn (h.stages_eq ▸ hlink)

end AssemblesTo

/-- For every accepted configuration with link, and each of its pipelines. -/
theorem unitsIndependent_of_assemblesTo {tools : Toolchain} {fs : FileSystem} {dir : Path}
    {c : Config} {plan : BuildPlan} {temporaries : List Path}
    (h : AssemblesTo tools fs dir c plan temporaries) (hlink : plan.stages.isActive .link = true)
    (p : Pipeline) : UnitsIndependent tools fs dir c p plan := by
  obtain ⟨_, _, _, hrun⟩ := h.exists_linkedIn hlink
  have hother : ∀ (inputs' : List Path) (plan' : BuildPlan) (temporaries' : List Path),
      AssemblesTo tools fs dir (c.withInputs p inputs') plan' temporaries' →
      ∃ units link more, LinkedIn fs dir
        (AssemblyContext.withInputs ⟨⟨c, tools⟩, StagePlan.ofOptions c.stages⟩ p inputs') plan'
        temporaries' units link more := by
    intro inputs' plan' temporaries' h'
    have hstages : (c.withInputs p inputs').stages = c.stages := c.stages_setPipeline p _
    have hlink' : plan'.stages.isActive .link = true := by
      rw [h'.stages_eq, hstages, ← h.stages_eq]
      exact hlink
    have hexists := h'.exists_linkedIn hlink'
    rwa [hstages] at hexists
  refine
    { unit := fun inputs' plan' temporaries' h' i j q hq hq' => ?_
      permuted := fun inputs' plan' temporaries' h' place hplace => ?_ }
  · obtain ⟨_, _, _, hrun'⟩ := hother inputs' plan' temporaries' h'
    exact hrun.sameUnit hrun' hq hq'
  · obtain ⟨_, _, _, hrun'⟩ := hother inputs' plan' temporaries' h'
    exact hrun.inputsPermuted hrun' place hplace

namespace Sample

/-- The inputs of the device the other way round. -/
def swapped : List Path := [.ofString "b.ll", .ofString "a.cl"]

def swap : Fin (config.pipeline .device).inputs.length ≃ Fin swapped.length :=
  (Fin.revPerm : Fin 2 ≃ Fin 2)

theorem swapped_swap : ∀ i, swapped[swap i] = (config.pipeline .device).inputs[i] := by
  decide +kernel

/-- The stages assembled for these inputs, with other tokens. -/
def swappedOutcome : Except PipelineError BuildPlan × Workspace :=
  (Assembler.standard.assemble ⟨config.withInputs .device swapped, tools⟩ stages).run
    ⟨{}, .ofSeed 70, { dir := .ofString "/" }⟩

theorem exists_swappedOutcome_eq : ∃ plan, swappedOutcome = (.ok plan, swappedOutcome.2) := by
  have h : swappedOutcome.1.toBool = true := by decide +kernel
  obtain ⟨plan, w, ho⟩ := exists_eq_ok_of_toBool h
  exact ⟨plan, by rw [ho]⟩

end Sample

theorem unitsIndependent_of_sample :
    ∃ plan plan', (∃ a b, plan.actionsOf .device .compile = [a, b]) ∧
      InputsPermuted {} (.ofString "/") Sample.config .device
        (Sample.config.pipeline .device).inputs Sample.swapped Sample.swap plan plan' ∧
      Sample.config.KeepsLibrary {} (.ofString "/") := by
  have hname : Sample.config.libraryFile.fileName = some (Utf8.encode "nvptx64--nvidiacl.bc") := by
    decide +kernel
  have hl : ¬ Utf8.encode "ac" <+: Utf8.encode "nvptx64--nvidiacl.bc" := by decide +kernel
  obtain ⟨plan, hrun⟩ := Sample.exists_outcome_eq
  obtain ⟨plan', hrun'⟩ := Sample.exists_swappedOutcome_eq
  have h : AssemblesTo Sample.tools {} (.ofString "/") Sample.config plan Sample.temporaries :=
    ⟨Sample.stages, .ofSeed 0, Sample.outcome.2, rfl, hrun, rfl⟩
  have h' : AssemblesTo Sample.tools {} (.ofString "/")
      (Sample.config.withInputs .device Sample.swapped) plan' Sample.swappedOutcome.2.arena.paths :=
    ⟨Sample.stages, .ofSeed 70, Sample.swappedOutcome.2, rfl, hrun', rfl⟩
  have hactive : ∀ s, plan.stages.isActive s = Sample.stages.isActive s := fun s => by
    rw [h.stages_eq]
    rfl
  have hunits := unitsIndependent_of_assemblesTo h (hactive .link) .device
  have hpermuted := hunits.permuted Sample.swapped plan' _ h' Sample.swap Sample.swapped_swap
  refine ⟨plan, plan', ?_, hpermuted, Config.keepsLibrary_of_name hname hl {} _⟩
  exact List.length_eq_two.mp (hpermuted.length .compile List.mem_cons_self (hactive .compile)).1

namespace Sample

/-- The device looks for its library among the temporaries, and the library is called like the first
temporary if this is made for `a.cl`. -/
def crowded : Config where
  device :=
    { inputs := [.ofString "a.cl", .ofString "b.cl"], output := some (.ofString "k.bc")
      libraryDirs := [.ofString "/t"] }
  toolchain := { deviceTarget := "ac00000000-a" }
  stages := { analyze := false, transform := false }

/-- For the inputs in one order the device links a temporary as its library, and for the inputs in
the other order it does not. So the last argument of link, which is no input, is not the same. -/
theorem exists_crowded_library : ∃ plan temporaries plan' temporaries',
    AssemblesTo tools temporaryDir (.ofString "/t") crowded plan temporaries ∧
    plan.stages.isActive .link = true ∧
    AssemblesTo tools temporaryDir (.ofString "/t")
      (crowded.withInputs .device [.ofString "b.cl", .ofString "a.cl"]) plan' temporaries' ∧
    (plan.actionsOf .device .link).map (·.command.args.getLast?) =
      [some (Utf8.encode "/t/ac00000000-a.bc")] ∧
    (plan'.actionsOf .device .link).map (·.command.args.getLast?) =
      [some (Utf8.encode "ac00000000-a.bc")] ∧
    (plan'.actionsOf .device .link).map (·.template) ≠
      (plan.actionsOf .device .link).map (·.template) := by
  let stages := StagePlan.ofOptions crowded.stages
  let start : Workspace := ⟨temporaryDir, .ofSeed 0, { dir := .ofString "/t" }⟩
  let swapped := crowded.withInputs .device [.ofString "b.cl", .ofString "a.cl"]
  have hown : ((Assembler.standard.assemble ⟨crowded, tools⟩ stages).run start).1.toOption.map
      linkEnds = some [(some (Utf8.encode "/t/ac00000000-a.bc"),
        [Utf8.encode "/t/ac00000000-a.bc"])] := by
    decide +kernel
  have hswapped : ((Assembler.standard.assemble ⟨swapped, tools⟩ stages).run start).1.toOption.map
      linkEnds = some [(some (Utf8.encode "ac00000000-a.bc"),
        [Utf8.encode "ac00000000-a.bc"])] := by
    decide +kernel
  obtain ⟨plan, w, hplan, hends⟩ := exists_eq_ok_of_map hown
  obtain ⟨plan', w', hplan', hends'⟩ := exists_eq_ok_of_map hswapped
  have h : AssemblesTo tools temporaryDir (.ofString "/t") crowded plan w.arena.paths :=
    ⟨stages, .ofSeed 0, w, rfl, hplan, rfl⟩
  refine ⟨plan, _, plan', w'.arena.paths, h, ?_, ⟨stages, .ofSeed 0, w', rfl, hplan', rfl⟩,
    ?_, ?_, ?_⟩
  · rw [h.stages_eq]
    rfl
  · rw [← map_fst_linkEnds, hends]
    rfl
  · rw [← map_fst_linkEnds, hends']
    rfl
  · exact template_ne_of_linkEnds (by rw [hends, hends']; decide +kernel)

end Sample

end CompilerDriver
