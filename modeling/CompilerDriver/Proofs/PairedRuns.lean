import CompilerDriver.Proofs.ComparedRuns

/-!
# Two runs of assembly in step

Runs of one step from two workspaces that agree but for their tokens stay in
step: they make the same temporaries at the same time, and end in the same error
or in results that correspond. The results are compared relative to the pairs of
temporaries drawn so far, and stay comparable when more of them are drawn.
-/
namespace CompilerDriver

/-- Both are the same error, or both are values that correspond. -/
inductive Agree {α : Type} (Q : α → α → Prop) :
    Except PipelineError α → Except PipelineError α → Prop where
  | error (e : PipelineError) : Agree Q (.error e) (.error e)
  | ok {a a' : α} : Q a a' → Agree Q (.ok a) (.ok a')

namespace Agree

variable {α β : Type} {Q R : α → α → Prop} {S : β → β → Prop} {x x' : Except PipelineError α}
  {f f' : α → Except PipelineError β}

theorem bind (h : Agree Q x x') (hf : ∀ a a', Q a a' → Agree S (f a) (f' a')) :
    Agree S (x >>= f) (x' >>= f') := by
  cases h with
  | error e => exact .error e
  | ok ha => exact hf _ _ ha

theorem mono (h : Agree Q x x') (hQ : ∀ a a', Q a a' → R a a') : Agree R x x' := by
  cases h with
  | error e => exact .error e
  | ok ha => exact .ok (hQ _ _ ha)

theorem refl (x : Except PipelineError α) : Agree (fun a a' => a' = a ∧ x = .ok a) x x := by
  cases x with
  | error e => exact .error e
  | ok a => exact .ok ⟨rfl, rfl⟩

/-- Lists that correspond are gone through alike. -/
theorem mapM {f f' : α → Except PipelineError β} {xs xs' : List α} (h : List.Forall₂ Q xs xs')
    (hf : ∀ a a', Q a a' → Agree S (f a) (f' a')) :
    Agree (List.Forall₂ S) (xs.mapM f) (xs'.mapM f') := by
  induction h with
  | nil => exact .ok .nil
  | cons ha _ ih =>
    rw [List.mapM_cons, List.mapM_cons]
    refine (hf _ _ ha).bind fun b b' hb => ih.bind fun bs bs' hbs => ?_
    exact .ok (.cons hb hbs)

end Agree

/-- One artifact in two runs: a configured file, or two temporaries in one intermediate form that
were drawn at the same time. -/
inductive SameArtifact (configured : List Path) (drawn : List (Path × Path)) : Path → Path → Prop
    where
  | configured {q : Path} : q ∈ configured → SameArtifact configured drawn q q
  | drawn {q q' : Path} {f : Format} : (q, q') ∈ drawn → f.isIntermediate = true →
      Format.ofPath? q = some f → Format.ofPath? q' = some f → SameArtifact configured drawn q q'

namespace SameArtifact

variable {configured : List Path} {drawn more : List (Path × Path)} {q q' : Path}

theorem mono (h : SameArtifact configured drawn q q') (hd : drawn ⊆ more) :
    SameArtifact configured more q q' := by
  cases h with
  | configured hq => exact .configured hq
  | drawn hq hf hform hform' => exact .drawn (hd hq) hf hform hform'

theorem sameFile (h : SameArtifact configured drawn q q') :
    SameFile configured (drawn.map Prod.fst) (drawn.map Prod.snd) q q' := by
  cases h with
  | configured hq => exact .configured hq
  | drawn hq _ _ _ =>
    refine .drawn ?_
    have hzip : (drawn.map Prod.fst).zip (drawn.map Prod.snd) = drawn := by
      rw [← List.unzip_fst, ← List.unzip_snd, List.zip_unzip]
    rwa [hzip]

end SameArtifact

/-- The workspaces have grown from one start, up to the tokens of the pairs drawn since. -/
structure Workspace.InStep (start : Workspace) (drawn : List (Path × Path)) (w w' : Workspace) :
    Prop where
  grows : start.Grows w
  grows' : start.Grows w'
  paths : w.arena.paths = start.arena.paths ++ drawn.map Prod.fst
  paths' : w'.arena.paths = start.arena.paths ++ drawn.map Prod.snd
  requested : ∀ e ∈ drawn, ∃ (q : Path) (f : Format),
    Request.AnswersIn start.fs start.arena.dir ⟨CompilationUnit.nameOf q, f.extension⟩ e.1 ∧
    Request.AnswersIn start.fs start.arena.dir ⟨CompilationUnit.nameOf q, f.extension⟩ e.2

theorem Workspace.Grows.nodup {w w' : Workspace} {paths : List Path} (h : w.Grows w')
    (hpaths : w'.arena.paths = w.arena.paths ++ paths) : paths.Nodup := by
  obtain ⟨created, harena, hcreated⟩ := h
  rw [harena] at hpaths
  rw [← List.append_cancel_left hpaths]
  exact hcreated.nodup.of_map _

namespace Workspace.InStep

variable {start w w' w₁ w₁' : Workspace} {drawn : List (Path × Path)} {q path path' : Path}
  {f : Format}

theorem refl {start : Workspace} (names : NameSupply) :
    start.InStep [] start { start with names := names } where
  grows := .refl start
  grows' := .refl start
  paths := (List.append_nil _).symm
  paths' := (List.append_nil _).symm
  requested _ he := absurd he List.not_mem_nil

/-- Workspaces stay in step when each of them makes a temporary for the same request. -/
theorem concat (h : start.InStep drawn w w')
    (ha : w.allocate (CompilationUnit.nameOf q) f.extension = (.ok path, w₁))
    (ha' : w'.allocate (CompilationUnit.nameOf q) f.extension = (.ok path', w₁')) :
    start.InStep (drawn ++ [(path, path')]) w₁ w₁' where
  grows := by
    have hgrows := w.grows_allocate (CompilationUnit.nameOf q) f.extension
    rw [ha] at hgrows
    exact h.grows.trans hgrows
  grows' := by
    have hgrows := w'.grows_allocate (CompilationUnit.nameOf q) f.extension
    rw [ha'] at hgrows
    exact h.grows'.trans hgrows
  paths := by
    have hpaths := paths_allocate_of_ok (congrArg Prod.fst ha)
    rw [ha, h.paths, List.append_assoc] at hpaths
    rw [hpaths, List.map_append]
    rfl
  paths' := by
    have hpaths := paths_allocate_of_ok (congrArg Prod.fst ha')
    rw [ha', h.paths', List.append_assoc] at hpaths
    rw [hpaths, List.map_append]
    rfl
  requested e he := by
    rcases List.mem_append.mp he with he | he
    · exact h.requested e he
    · obtain rfl := List.mem_singleton.mp he
      refine ⟨q, f, ?_, ?_⟩
      · rw [← h.grows.answersIn]
        exact answersIn_of_allocate ha
      · rw [← h.grows'.answersIn]
        exact answersIn_of_allocate ha'

theorem twins (h : start.InStep drawn w w') :
    List.Forall₂ (Twins start.fs start.arena.dir) (drawn.map Prod.fst) (drawn.map Prod.snd) := by
  rw [List.forall₂_map_left_iff, List.forall₂_map_right_iff, List.forall₂_same]
  intro e he
  obtain ⟨q, f, ⟨t, ht⟩, t', ht'⟩ := h.requested e he
  exact ⟨_, t, t', ht, ht'⟩

/-- In each of the runs no temporary is made twice. -/
theorem nodup (h : start.InStep drawn w w') :
    (drawn.map Prod.fst).Nodup ∧ (drawn.map Prod.snd).Nodup :=
  ⟨h.grows.nodup h.paths, h.grows'.nodup h.paths'⟩

theorem fileName (h : start.InStep drawn w w') :
    (∀ q ∈ drawn.map Prod.fst, ∃ name, q.fileName = some name) ∧
      ∀ q ∈ drawn.map Prod.snd, ∃ name, q.fileName = some name := by
  constructor
  all_goals
    intro q hq
    obtain ⟨e, he, rfl⟩ := List.mem_map.mp hq
    obtain ⟨source, f, ha, ha'⟩ := h.requested e he
  · obtain ⟨rest, hname⟩ := ha.fileName
    exact ⟨_, hname⟩
  · obtain ⟨rest, hname⟩ := ha'.fileName
    exact ⟨_, hname⟩

end Workspace.InStep

namespace AssemblyM

open Workspace (InStep)

/-- The system has refused to make a temporary. -/
def Refused {α : Type} (outcome : Except PipelineError α × Workspace) : Prop :=
  ∃ source, outcome.1 = .error (.tempArtifact source)

/-- Two runs end in step, in the same error or with results that correspond, unless in one of them
an allocation is refused. -/
inductive EndsAlike {α : Type} (start : Workspace) (drawn : List (Path × Path))
    (Q : List (Path × Path) → α → α → Prop) :
    Except PipelineError α × Workspace → Except PipelineError α × Workspace → Prop where
  | refused {outcome outcome' : Except PipelineError α × Workspace} :
      Refused outcome ∨ Refused outcome' → EndsAlike start drawn Q outcome outcome'
  | met {x x' : Except PipelineError α} {w w' : Workspace} {more : List (Path × Path)} :
      drawn ⊆ more → InStep start more w w' → Agree (Q more) x x' →
      EndsAlike start drawn Q (x, w) (x', w')

/-- From workspaces that are in step, with these pairs drawn, the two steps end alike. -/
def Corresponds {α : Type} (start : Workspace) (drawn : List (Path × Path)) (m m' : AssemblyM α)
    (Q : List (Path × Path) → α → α → Prop) : Prop :=
  ∀ w w', InStep start drawn w w' → EndsAlike start drawn Q (m.run w) (m'.run w')

variable {α β γ : Type} {start : Workspace} {drawn more : List (Path × Path)}
  {m m' : AssemblyM α} {f f' : α → AssemblyM β} {Q : List (Path × Path) → α → α → Prop}
  {S : List (Path × Path) → β → β → Prop}

theorem EndsAlike.of_subset {outcome outcome' : Except PipelineError α × Workspace}
    (h : EndsAlike start more Q outcome outcome') (hd : drawn ⊆ more) :
    EndsAlike start drawn Q outcome outcome' := by
  cases h with
  | refused hr => exact .refused hr
  | met hmore hw hx => exact .met (List.Subset.trans hd hmore) hw hx

theorem corresponds_pure {a a' : α} (h : Q drawn a a') :
    Corresponds start drawn (pure a) (pure a') Q :=
  fun _ _ hw => .met (List.Subset.refl _) hw (.ok h)

theorem corresponds_throw (e : PipelineError) :
    Corresponds start drawn (throw e : AssemblyM α) (throw e) Q :=
  fun _ _ hw => .met (List.Subset.refl _) hw (.error e)

theorem corresponds_ofExcept {x x' : Except PipelineError α} (h : Agree (Q drawn) x x') :
    Corresponds start drawn (ofExcept x) (ofExcept x') Q := by
  cases h with
  | error e => exact corresponds_throw e
  | ok ha => exact corresponds_pure ha

theorem corresponds_same (x : Except PipelineError α) :
    Corresponds start drawn (ofExcept x) (ofExcept x) fun _ a a' => a' = a ∧ x = .ok a :=
  corresponds_ofExcept (Agree.refl x)

theorem Corresponds.bind (h : Corresponds start drawn m m' Q)
    (hf : ∀ more a a', drawn ⊆ more → Q more a a' → Corresponds start more (f a) (f' a') S) :
    Corresponds start drawn (m >>= f) (m' >>= f') S := by
  intro w w' hw
  have hm := h w w' hw
  rw [run_bind, run_bind]
  generalize m.run w = outcome at hm ⊢
  generalize m'.run w' = outcome' at hm ⊢
  cases hm with
  | refused hr =>
    -- The refusal is the error of the whole step.
    rcases hr with ⟨source, hs⟩ | ⟨source, hs⟩
    · obtain ⟨x, w₁⟩ := outcome
      obtain rfl : x = .error (.tempArtifact source) := hs
      exact .refused (Or.inl ⟨source, rfl⟩)
    · obtain ⟨x, w₁⟩ := outcome'
      obtain rfl : x = .error (.tempArtifact source) := hs
      exact .refused (Or.inr ⟨source, rfl⟩)
  | met hd hmid hx =>
    cases hx with
    | error e => exact .met hd hmid (.error e)
    | ok ha => exact (hf _ _ _ hd ha _ _ hmid).of_subset hd

/-- A loop over one list, where every step keeps the correspondence. -/
theorem Corresponds.foldlM {step : β → γ → AssemblyM β} {xs : List γ}
    (h : ∀ more b b', S more b b' → ∀ x ∈ xs, Corresponds start more (step b x) (step b' x) S)
    {b b' : β} (hb : S drawn b b') :
    Corresponds start drawn (xs.foldlM step b) (xs.foldlM step b') S := by
  induction xs generalizing drawn b b' with
  | nil => exact corresponds_pure hb
  | cons x rest ih =>
    rw [List.foldlM_cons, List.foldlM_cons]
    refine (h drawn b b' hb x List.mem_cons_self).bind fun more c c' _ hc => ?_
    exact ih (fun more b b' hb x hx => h more b b' hb x (List.mem_cons_of_mem _ hx)) hc

end AssemblyM

end CompilerDriver
