import CompilerDriver.Proofs.Dataflow
import CompilerDriver.Proofs.PipelineSettings
import CompilerDriver.Proofs.PipelineStrands

/-!
# Plans that are alike in one pipeline

Two plans may come from configurations that differ elsewhere and from runs that
draw different tokens. Where they agree on a pipeline, its actions are the same
one by one, up to the temporaries, and these are matched in the order in which
the pipeline draws them. The induction is on the strands of the two plans.
-/
namespace CompilerDriver

/-- The actions differ in their templates and their files at most, and the files correspond. -/
structure Action.Matched (same : Path → Path → Prop) (a a' : Action) : Prop where
  kind : a'.kind = a.kind
  output : same a.binding.output a'.binding.output
  inputs : List.Forall₂ same a.binding.inputs a'.binding.inputs
  result : a'.result = a.result
  launchError : a'.launchError = a.launchError

/-- The actions differ in their files at most, and the files correspond. -/
structure Action.Alike (same : Path → Path → Prop) (a a' : Action) : Prop
    extends Action.Matched same a a' where
  template : a'.template = a.template

/-- A device link with another library at the end. -/
def Action.withLibrary (a : Action) (library : Path) : Action :=
  { a with template := { a.template with trailing := [library.bytes] } }

/-- Commands of one shape, whose files correspond. -/
def Command.Alike (same : Path → Path → Prop) (command command' : Command) : Prop :=
  ∃ (t : Template) (b b' : Binding), command = t.command b ∧ command' = t.command b' ∧
    same b.output b'.output ∧ List.Forall₂ same b.inputs b'.inputs

/-- One file in two runs: a configured one is itself, and temporaries are matched in the order in
which they are drawn. -/
inductive SameFile (configured drawn drawn' : List Path) : Path → Path → Prop where
  | configured {q : Path} : q ∈ configured → SameFile configured drawn drawn' q q
  | drawn {q q' : Path} : (q, q') ∈ drawn.zip drawn' → SameFile configured drawn drawn' q q'

/-- The inputs and the output of a pipeline. -/
def PipelineConfig.files (c : PipelineConfig) : List Path := c.inputs ++ c.output.toList

/-- The inputs and the outputs of both pipelines. -/
def Config.files (c : Config) : List Path := c.device.files ++ c.host.files

theorem Config.files_subset (c : Config) (p : Pipeline) : (c.pipeline p).files ⊆ c.files := by
  cases p with
  | device => exact List.subset_append_left _ _
  | host => exact List.subset_append_right _ _

namespace BuildPlan

instance (plan : BuildPlan) (p : Pipeline) (id : ActionId) : Decidable (plan.Owns p id) :=
  inferInstanceAs (Decidable (_ ∈ _))

/-- The actions of a pipeline at a stage, in order. -/
def actionsOf (plan : BuildPlan) (p : Pipeline) (s : Stage) : List Action :=
  ((plan.actions.stage s).zipIdx.filter fun e => decide (plan.Owns p ⟨s, e.2⟩)).map Prod.fst

/-- What a pipeline writes before the last stage, in order. -/
def temporariesOf (plan : BuildPlan) (p : Pipeline) : List Path :=
  plan.stages.activeStages.dropLast.flatMap fun s => (plan.actionsOf p s).map (·.binding.output)

end BuildPlan

/-- Two plans are the same in a pipeline, up to the tokens of its temporaries. -/
structure SamePart (fs : FileSystem) (dir : Path) (c : Config) (p : Pipeline)
    (plan plan' : BuildPlan) : Prop where
  /-- The temporaries correspond one to one, and differ in their tokens only. -/
  temporaries : List.Forall₂ (Twins fs dir) (plan.temporariesOf p) (plan'.temporariesOf p)
  nodup : (plan.temporariesOf p).Nodup ∧ (plan'.temporariesOf p).Nodup
  /-- The library of a device link has to be out of reach of the temporaries. Nothing else has. -/
  actions : ∀ s, (p = .device → s = .link → c.KeepsLibrary fs dir) → List.Forall₂
    (Action.Alike (SameFile (c.pipeline p).files (plan.temporariesOf p) (plan'.temporariesOf p)))
    (plan.actionsOf p s) (plan'.actionsOf p s)
  /-- In any case the library is all that can differ between device links. -/
  deviceLink : p = .device → List.Forall₂ (fun a a' => ∃ library, a.Alike
      (SameFile (c.pipeline p).files (plan.temporariesOf p) (plan'.temporariesOf p))
      (a'.withLibrary library))
    (plan.actionsOf p .link) (plan'.actionsOf p .link)

section Alike

variable {same same' : Path → Path → Prop} {a a' : Action}

theorem Action.Alike.command (h : a.Alike same a') : a.command.Alike same a'.command := by
  refine ⟨a.template, a.binding, a'.binding, rfl, ?_, h.output, h.inputs⟩
  rw [Action.command, h.template]

theorem Action.Alike.refl (a : Action) : a.Alike Eq a :=
  ⟨⟨rfl, rfl, List.forall₂_same.mpr fun _ _ => rfl, rfl, rfl⟩, rfl⟩

theorem Action.Matched.mono (h : a.Matched same a') (hs : ∀ q q', same q q' → same' q q') :
    a.Matched same' a' :=
  ⟨h.kind, hs _ _ h.output, h.inputs.imp hs, h.result, h.launchError⟩

theorem Action.Matched.withLibrary (h : a.Matched same a') (library : Path) :
    a.Matched same (a'.withLibrary library) :=
  ⟨h.kind, h.output, h.inputs, h.result, h.launchError⟩

/-- Device links with the same tools differ in the library at most. -/
theorem Action.template_withLibrary {s s' : BuildSettings} {fs fs' : FileSystem}
    (hs : s'.tools = s.tools) (ht : s.template fs .deviceLink = .ok a.template)
    (ht' : s'.template fs' .deviceLink = .ok a'.template) :
    (a'.withLibrary (s.deviceLibrary fs)).template = a.template := by
  rw [withLibrary, BuildSettings.template_deviceLink ht, BuildSettings.template_deviceLink ht', hs]

theorem Action.Alike.mono (h : a.Alike same a') (hs : ∀ q q', same q q' → same' q q') :
    a.Alike same' a' :=
  ⟨h.toMatched.mono hs, h.template⟩

theorem map_template_of_alike {actions actions' : List Action}
    (h : List.Forall₂ (Action.Alike same) actions actions') :
    actions'.map (·.template) = actions.map (·.template) := by
  induction h with
  | nil => rfl
  | cons ha _ ih => rw [List.map_cons, List.map_cons, ha.template, ih]

theorem Command.Alike.eq {command command' : Command} (h : command.Alike Eq command') :
    command' = command := by
  obtain ⟨t, ⟨output, inputs⟩, ⟨output', inputs'⟩, rfl, rfl, houtput, hinputs⟩ := h
  rw [List.forall₂_eq_eq_eq] at hinputs
  obtain rfl : output = output' := houtput
  obtain rfl : inputs = inputs' := hinputs
  rfl

/-- Command by command, the pipeline does the same in both plans. -/
theorem SamePart.commands {fs : FileSystem} {dir : Path} {c : Config} {p : Pipeline}
    {plan plan' : BuildPlan} (h : SamePart fs dir c p plan plan') (s : Stage)
    (hs : p = .device → s = .link → c.KeepsLibrary fs dir) :
    List.Forall₂ (Command.Alike
      (SameFile (c.pipeline p).files (plan.temporariesOf p) (plan'.temporariesOf p)))
      ((plan.actionsOf p s).map (·.command)) ((plan'.actionsOf p s).map (·.command)) := by
  rw [List.forall₂_map_left_iff, List.forall₂_map_right_iff]
  exact (h.actions s hs).imp fun _ _ ha => ha.command

end Alike

section Lists

variable {α β γ δ : Type}

/-- Lists that are put together of pieces of the same lengths are matched piece by piece. -/
theorem zip_flatMap {f : γ → List α} {g : δ → List β} {xs : List γ} {ys : List δ}
    (h : List.Forall₂ (fun x y => (f x).length = (g y).length) xs ys) :
    (xs.flatMap f).zip (ys.flatMap g) = (xs.zip ys).flatMap fun e => (f e.1).zip (g e.2) := by
  induction h with
  | nil => rfl
  | cons hxy _ ih =>
    rw [List.flatMap_cons, List.flatMap_cons, List.zip_append hxy, ih]
    rfl

theorem forall₂_of_mem {R S : α → β → Prop} {xs : List α} {ys : List β}
    (h : List.Forall₂ R xs ys) (hs : ∀ x ∈ xs, ∀ y ∈ ys, R x y → S x y) :
    List.Forall₂ S xs ys := by
  induction h with
  | nil => exact .nil
  | cons hxy _ ih =>
    refine .cons (hs _ List.mem_cons_self _ List.mem_cons_self hxy) (ih ?_)
    exact fun x hx y hy => hs x (List.mem_cons_of_mem _ hx) y (List.mem_cons_of_mem _ hy)

theorem forall₂_of_map_eq {f : γ → α} {g : δ → α} {xs : List γ} {ys : List δ}
    (h : xs.map f = ys.map g) : List.Forall₂ (fun x y => f x = g y) xs ys := by
  have heq : List.Forall₂ (· = ·) (xs.map f) (ys.map g) := by
    rw [List.forall₂_eq_eq_eq]
    exact h
  rw [List.forall₂_map_left_iff, List.forall₂_map_right_iff] at heq
  exact heq

end Lists

theorem SameFile.mono {configured configured' drawn drawn' all all' : List Path} {q q' : Path}
    (h : SameFile configured drawn drawn' q q') (hc : configured ⊆ configured')
    (hd : drawn.zip drawn' ⊆ all.zip all') : SameFile configured' all all' q q' := by
  cases h with
  | configured hq => exact .configured (hc hq)
  | drawn hq => exact .drawn (hd hq)

namespace Stage

theorem forall₂_reads {R : Path → Path → Prop} {front front' : List Path} (s : Stage)
    (h : List.Forall₂ R front front') :
    List.Forall₂ (List.Forall₂ R) (s.reads front) (s.reads front') := by
  by_cases hs : s = .link
  · subst hs
    cases h with
    | nil =>
      rw [reads_nil]
      exact .nil
    | cons hq hrest =>
      rw [reads_link (List.cons_ne_nil _ _), reads_link (List.cons_ne_nil _ _)]
      exact .cons (.cons hq hrest) .nil
  · rw [reads_of_ne_link hs, reads_of_ne_link hs, List.forall₂_map_left_iff,
      List.forall₂_map_right_iff]
    exact h.imp fun _ _ hq => .cons hq .nil

end Stage

/-- Rows of one stage are matched, where their fronts and their outputs correspond. What is written
may correspond in a wider sense than what is read, and need not be in the same form. -/
theorem Row.matched {settings settings' : BuildSettings} {p : Pipeline} {s : Stage}
    {front front' : List Path} {actions actions' : List Action} {R S : Path → Path → Prop}
    (h : Row settings p s front actions) (h' : Row settings' p s front' actions')
    (hf : List.Forall₂ R front front')
    (ho : List.Forall₂ S (actions.map (·.binding.output)) (actions'.map (·.binding.output)))
    (hR : ∀ q q', R q q' → Format.ofPath? q' = Format.ofPath? q)
    (hS : ∀ q q', R q q' → S q q') : List.Forall₂ (Action.Matched S) actions actions' := by
  have hin := s.forall₂_reads hf
  rw [← h.inputs, ← h'.inputs, List.forall₂_map_left_iff, List.forall₂_map_right_iff] at hin
  rw [List.forall₂_map_left_iff, List.forall₂_map_right_iff] at ho
  refine forall₂_of_mem (List.Forall₂.mp (fun _ _ => And.intro) hin ho) ?_
  intro a ha a' ha' ⟨hinputs, houtput⟩
  -- The form of the first input decides the kind, and it is the same on both sides.
  obtain ⟨q, q', rest, rest', hq, hq', hqq'⟩ : ∃ q q' rest rest', a.binding.inputs = q :: rest ∧
      a'.binding.inputs = q' :: rest' ∧ R q q' := by
    have hne := h.inputs_ne_nil ha
    cases hi : a.binding.inputs with
    | nil => exact absurd hi hne
    | cons q rest =>
      cases hi' : a'.binding.inputs with
      | nil =>
        rw [hi, hi'] at hinputs
        cases hinputs
      | cons q' rest' =>
        rw [hi, hi'] at hinputs
        cases hinputs with
        | cons hqq' _ => exact ⟨q, q', rest, rest', rfl, rfl, hqq'⟩
  have hkind := h.kind a ha q (by rw [hq]; exact List.mem_cons_self)
  have hkind' := h'.kind a' ha' q' (by rw [hq']; exact List.mem_cons_self)
  rw [hR q q' hqq', hkind, Option.some.injEq] at hkind'
  exact
    { kind := hkind'.symm
      output := houtput
      inputs := hinputs.imp hS
      result := by rw [(h.built a ha).result, (h'.built a' ha').result]
      launchError := by rw [(h.built a ha).launchError, (h'.built a' ha').launchError] }

section Strands

variable {settings settings' : BuildSettings} {p : Pipeline} {front front' : List Path}
  {before before' : List Round} {last last' : Round} {R S : Path → Path → Prop}

/-- Strands over the same stages are matched, where they start alike and write alike. What the last
rounds write is read by no other round, and may correspond in a wider sense. -/
theorem Strand.matched (h : Strand settings p front (before ++ [last]))
    (h' : Strand settings' p front' (before' ++ [last'])) (hf : List.Forall₂ R front front')
    (ho : List.Forall₂ (fun r r' => r.stage = r'.stage ∧
      List.Forall₂ R (r.outputs p) (r'.outputs p)) before before')
    (hl : last.stage = last'.stage ∧ List.Forall₂ S (last.outputs p) (last'.outputs p))
    (hR : ∀ q q', R q q' → Format.ofPath? q' = Format.ofPath? q)
    (hS : ∀ q q', R q q' → S q q') :
    List.Forall₂ (fun r r' => r.stage = r'.stage ∧
      List.Forall₂ (Action.Matched S) (r.row p) (r'.row p)) (before ++ [last])
      (before' ++ [last']) := by
  induction ho generalizing front front' with
  | nil =>
    cases h with
    | cons hrow _ =>
      cases h' with
      | cons hrow' _ =>
        obtain ⟨hs, hout⟩ := hl
        rw [← hs] at hrow'
        exact .cons ⟨hs, hrow.matched hrow' hf hout hR hS⟩ .nil
  | @cons r r' _ _ hround _ ih =>
    cases h with
    | cons hrow hrest =>
      cases h' with
      | cons hrow' hrest' =>
        obtain ⟨hs, hout⟩ := hround
        rw [← hs] at hrow'
        exact .cons ⟨hs, hrow.matched hrow' hf (hout.imp hS) hR hS⟩ (ih hrest hrest' hout)

/-- Matched rows are alike, where actions of one kind have one template. -/
theorem forall₂_rows_alike {rounds rounds' : List Round}
    (h : List.Forall₂ (fun r r' => r.stage = r'.stage ∧
      List.Forall₂ (Action.Matched S) (r.row p) (r'.row p)) rounds rounds')
    (ht : ∀ r ∈ rounds, ∀ r' ∈ rounds', ∀ a ∈ r.row p, ∀ a' ∈ r'.row p, a'.kind = a.kind →
      a'.template = a.template) :
    List.Forall₂ (fun r r' => r.stage = r'.stage ∧
      List.Forall₂ (Action.Alike S) (r.row p) (r'.row p)) rounds rounds' :=
  forall₂_of_mem h fun r hr r' hr' hround => ⟨hround.1, forall₂_of_mem hround.2
    fun a ha a' ha' hmatched => ⟨hmatched, ht r hr r' hr' a ha a' ha' hmatched.kind⟩⟩

end Strands

end CompilerDriver
