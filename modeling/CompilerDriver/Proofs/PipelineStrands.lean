import CompilerDriver.Proofs.AssembledPlan
import CompilerDriver.Proofs.TwinTemporaries

/-!
# The strand of one pipeline

The rows that a pipeline has in the rounds of a plan form a strand: each of them
reads what the one before has written. The strand alone tells how many files are
written at a stage. So the temporaries that were drawn in a run can be told
apart by stage and pipeline.
-/
namespace CompilerDriver

/-- Rows of a pipeline one after another, each with the outputs of the one before as its front. -/
inductive Strand (settings : BuildSettings) (p : Pipeline) : List Path → List Round → Prop where
  | nil {front : List Path} : Strand settings p front []
  | cons {front : List Path} {r : Round} {rest : List Round} :
      Row settings p r.stage front (r.row p) → Strand settings p (r.outputs p) rest →
      Strand settings p front (r :: rest)

theorem Rounds.strand {ctx : AssemblyContext} {fronts : Pipeline → List Path}
    {plan plan' : BuildPlan} {rounds : List Round} {paths : List Path}
    (h : Rounds ctx fronts plan rounds paths plan') (p : Pipeline) :
    Strand ctx.settings p (fronts p) rounds := by
  induction h with
  | nil => exact .nil
  | cons ht _ ih => exact .cons (ht.row p) ih

theorem Row.length_eq {settings : BuildSettings} {p : Pipeline} {s : Stage} {front : List Path}
    {actions : List Action} (h : Row settings p s front actions) :
    actions.length = (s.reads front).length := by
  rw [← h.inputs, List.length_map]

/-- Up to link, there is an artifact for each one that the strand starts from. -/
theorem Strand.exists_row {settings : BuildSettings} {p : Pipeline} {front : List Path}
    {before after : List Round} {r : Round} (h : Strand settings p front (before ++ r :: after))
    (hb : ∀ r' ∈ before, r'.stage.index < Stage.link.index) :
    ∃ front', front'.length = front.length ∧ Row settings p r.stage front' (r.row p) := by
  induction before generalizing front with
  | nil =>
    cases h with
    | cons hrow _ => exact ⟨front, rfl, hrow⟩
  | cons first before ih =>
    cases h with
    | cons hrow hrest =>
      obtain ⟨hfirst, hbefore⟩ := List.forall_mem_cons.mp hb
      have hne : first.stage ≠ .link := fun he => Nat.lt_irrefl _ (he ▸ hfirst)
      have hlen : (first.outputs p).length = front.length := by
        rw [Round.outputs, List.length_map, hrow.length_eq, Stage.length_reads_of_ne_link hne]
      obtain ⟨front', hfront', hrow'⟩ := ih hrest hbefore
      exact ⟨front', hfront'.trans hlen, hrow'⟩

theorem forall₂_append_split {α β : Type} {R : α → β → Prop} {a b : List α} {c d : List β}
    (h : List.Forall₂ R (a ++ b) (c ++ d)) (hl : a.length = c.length) :
    List.Forall₂ R a c ∧ List.Forall₂ R b d := by
  have ht := List.forall₂_take_append _ _ _ h
  have hd := List.forall₂_drop_append _ _ _ h
  rw [← hl] at ht hd
  rw [List.take_left] at ht
  rw [List.drop_left] at hd
  exact ⟨ht, hd⟩

/-- Where lists are put together of pieces of the same lengths, a relation between the lists is one
between the pieces. -/
theorem forall₂_of_flatMap {α β γ : Type} {R : α → β → Prop} {f : γ → List α}
    {g : γ → List β} {l : List γ} (hl : ∀ x ∈ l, (f x).length = (g x).length)
    (h : List.Forall₂ R (l.flatMap f) (l.flatMap g)) : ∀ x ∈ l, List.Forall₂ R (f x) (g x) := by
  induction l with
  | nil => simp
  | cons x rest ih =>
    obtain ⟨hx, hrest⟩ := List.forall_mem_cons.mp hl
    rw [List.flatMap_cons, List.flatMap_cons] at h
    obtain ⟨hfirst, hothers⟩ := forall₂_append_split h hx
    exact List.forall_mem_cons.mpr ⟨hfirst, ih hrest hothers⟩

namespace AssemblyContext

variable {ctx : AssemblyContext} {s : Stage}

theorem requestsAt_eq_nil_of_isLast (ha : StagePlan.Accepted ctx.config ctx.stages)
    (hl : ctx.stages.isLast s = true) (p : Pipeline) : ctx.requestsAt s p = [] := by
  cases hp : (ctx.config.pipeline p).isActive with
  | false => exact requestsAt_eq_nil ha hp
  | true => rw [requestsAt, requested_finalFor ha hp, if_pos hl]

theorem length_requestsAt (hl : ctx.stages.isLast s = false) (p : Pipeline) :
    (ctx.requestsAt s p).length = (ctx.unitNames s p).length := by
  rw [requestsAt, finalFor, hl, if_neg Bool.false_ne_true, requested, List.length_map]

end AssemblyContext

namespace Assembled

variable {ctx : AssemblyContext} {plan : BuildPlan} {paths : List Path} {before : List Round}
  {final r : Round} {p : Pipeline}

theorem strand (h : Assembled ctx plan paths before final) (p : Pipeline) :
    Strand ctx.settings p (ctx.sourcePaths p) (before ++ [final]) :=
  h.rounds.strand p

/-- A pipeline draws a temporary for each action that it takes at a stage before the last. -/
theorem length_outputs (h : Assembled ctx plan paths before final) (hr : r ∈ before)
    (p : Pipeline) : (ctx.requestsAt r.stage p).length = (r.outputs p).length := by
  obtain ⟨first, rest, rfl⟩ := List.append_of_mem hr
  have hstages : ctx.stages.activeStages =
      first.map (·.stage) ++ r.stage :: (rest.map (·.stage) ++ [final.stage]) := by
    rw [h.activeStages_eq, List.map_append, List.map_cons, List.append_assoc, List.cons_append]
  have hle : r.stage.index ≤ Stage.link.index := by
    by_contra hlt
    have hnil := h.accepted.rest_eq_nil_of_backend hstages (Nat.lt_of_not_le hlt)
    exact List.append_ne_nil_of_right_ne_nil _ (List.cons_ne_nil _ _) hnil
  have hbefore : ∀ r' ∈ first, r'.stage.index < Stage.link.index := fun r' hr' =>
    Nat.lt_of_lt_of_le
      ((StagePlan.index_lt_of_split hstages).1 _ (List.mem_map_of_mem hr')) hle
  have hstrand := h.strand p
  rw [List.append_assoc, List.cons_append] at hstrand
  obtain ⟨front, hfront, hrow⟩ := hstrand.exists_row hbefore
  rw [AssemblyContext.length_requestsAt (h.isLast_before hr), Round.outputs, List.length_map,
    hrow.length_eq, AssemblyContext.unitNames]
  -- The link stage merges the artifacts of a pipeline that has some, and leaves one.
  split_ifs with hlink
  · rw [hlink, List.length_map]
    have hactive := h.accepted.output p
    cases ho : (ctx.config.pipeline p).output with
    | none =>
      rw [ho] at hactive
      have hnil : front = [] := by
        rw [← List.length_eq_zero_iff, hfront, AssemblyContext.sourcePaths,
          PipelineConfig.isActive_eq_false_iff.mp hactive.symm]
        rfl
      rw [hnil, Stage.reads_nil]
      rfl
    | some output =>
      rw [ho] at hactive
      have hne : front ≠ [] := by
        rintro rfl
        have hinputs : (ctx.config.pipeline p).inputs = [] := List.length_eq_zero_iff.mp hfront.symm
        rw [PipelineConfig.isActive, hinputs] at hactive
        cases hactive
      rw [Stage.reads_link hne]
      rfl
  · rw [List.length_map, Stage.length_reads_of_ne_link hlink, hfront]
    rfl

theorem requests_eq (h : Assembled ctx plan paths before final) :
    ctx.requests = before.flatMap fun r => ctx.roundRequests r.stage := by
  have hfinal : ctx.roundRequests final.stage = [] := by
    unfold AssemblyContext.roundRequests
    rw [AssemblyContext.requestsAt_eq_nil_of_isLast h.accepted h.isLast_final,
      AssemblyContext.requestsAt_eq_nil_of_isLast h.accepted h.isLast_final, List.append_nil]
  rw [AssemblyContext.requests, h.activeStages_eq, List.flatMap_append, List.flatMap_singleton,
    hfinal, List.append_nil, List.flatMap_map]

theorem paths_eq_outputs (h : Assembled ctx plan paths before final) :
    paths = before.flatMap fun r => r.outputs .device ++ r.outputs .host := by
  rw [h.paths_eq, List.map_flatMap]
  exact List.flatMap_congr fun r _ => r.map_output_actions

/-- What a pipeline has drawn at a stage answers what it has asked for there. -/
theorem forall₂_outputs (h : Assembled ctx plan paths before final)
    {R : Request → Path → Prop} (hd : List.Forall₂ R ctx.requests paths) (hr : r ∈ before)
    (p : Pipeline) : List.Forall₂ R (ctx.requestsAt r.stage p) (r.outputs p) := by
  rw [h.requests_eq, h.paths_eq_outputs] at hd
  have hround : List.Forall₂ R (ctx.roundRequests r.stage)
      (r.outputs .device ++ r.outputs .host) := by
    refine forall₂_of_flatMap (fun r' hr' => ?_) hd r hr
    rw [AssemblyContext.roundRequests, List.length_append, List.length_append,
      h.length_outputs hr', h.length_outputs hr']
  obtain ⟨hdevice, hhost⟩ := forall₂_append_split hround (h.length_outputs hr .device)
  cases p with
  | device => exact hdevice
  | host => exact hhost

end Assembled

end CompilerDriver
