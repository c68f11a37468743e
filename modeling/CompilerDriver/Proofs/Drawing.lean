import CompilerDriver.Assembly
import CompilerDriver.Proofs.TemporaryFormat
import Mathlib.Data.List.Forall2

/-!
# Temporaries drawn by assembly

A step of assembly draws a list of requests when it makes exactly these
allocations, in order. It then fails only with the error of an allocation that
is refused, and otherwise ends in a result with a stated property. A step that
rejects its input does so after the allocations that come before.
-/
namespace CompilerDriver

/-- A temporary that is asked for. -/
structure Request where
  name : String
  extension : String
  deriving DecidableEq, Repr

/-- The path is one that an allocation for the request can give. -/
def Request.Answers (r : Request) (path : Path) : Prop :=
  ∃ (fs : FileSystem) (token : Token) (dir : Path),
    path = fs.absolute (token.path dir r.name r.extension)

theorem NameSupply.exists_token_of_create {dir path : Path} {name extension : String} {tries : Nat}
    {names names' : NameSupply} {fs fs' : FileSystem}
    (h : NameSupply.create dir name extension tries names fs = (.ok (path, fs'), names')) :
    ∃ token : Token, path = fs.absolute (token.path dir name extension) := by
  induction tries generalizing names with
  | zero => cases congrArg Prod.fst h
  | succ tries ih =>
    simp only [create] at h
    split at h
    · cases h
      exact ⟨_, rfl⟩
    · split at h
      · exact ih h
      · cases congrArg Prod.fst h

namespace Workspace

theorem answers_of_allocate {w w' : Workspace} {r : Request} {path : Path}
    (h : w.allocate r.name r.extension = (.ok path, w')) : r.Answers path := by
  unfold allocate at h
  split at h
  · next hc =>
    cases h
    obtain ⟨token, ht⟩ := NameSupply.exists_token_of_create hc
    exact ⟨w.fs, token, w.arena.dir, ht⟩
  · cases h

/-- The only error of an allocation is that of the system. -/
theorem tempArtifact_of_allocate {w w' : Workspace} {name extension : String} {e : PipelineError}
    (h : w.allocate name extension = (.error e, w')) : ∃ source, e = .tempArtifact source := by
  unfold allocate at h
  split at h
  · cases h
  · cases h
    exact ⟨_, rfl⟩

/-- Makes several allocations, up to the first that is refused. -/
def allocateAll (w : Workspace) : List Request → Except PipelineError (List Path) × Workspace
  | [] => (.ok [], w)
  | r :: rest =>
    match w.allocate r.name r.extension with
    | (.error e, w') => (.error e, w')
    | (.ok path, w') =>
      match w'.allocateAll rest with
      | (.error e, w'') => (.error e, w'')
      | (.ok paths, w'') => (.ok (path :: paths), w'')

/-- All allocations succeed. -/
def Grants (w : Workspace) (requests : List Request) : Prop :=
  ∃ paths, (w.allocateAll requests).1 = .ok paths

@[simp] theorem allocateAll_nil (w : Workspace) : w.allocateAll [] = (.ok [], w) := rfl

theorem allocateAll_singleton (w : Workspace) (r : Request) :
    w.allocateAll [r] = ((w.allocate r.name r.extension).1.map ([·]),
      (w.allocate r.name r.extension).2) := by
  unfold allocateAll
  rcases w.allocate r.name r.extension with ⟨_ | path, w'⟩ <;> rfl

theorem allocateAll_append (w : Workspace) (before after : List Request) :
    w.allocateAll (before ++ after) =
      match w.allocateAll before with
      | (.error e, w') => (.error e, w')
      | (.ok paths, w') =>
        ((w'.allocateAll after).1.map (paths ++ ·), (w'.allocateAll after).2) := by
  induction before generalizing w with
  | nil => rcases h : w.allocateAll after with ⟨_ | paths, w'⟩ <;> simp [h, Except.map]
  | cons r rest ih =>
    rw [List.cons_append]
    simp only [allocateAll]
    rcases w.allocate r.name r.extension with ⟨_ | path, w'⟩
    · rfl
    · simp only [ih]
      rcases w'.allocateAll rest with ⟨_ | paths, w''⟩
      · rfl
      · dsimp only
        rcases w''.allocateAll after with ⟨_ | _, _⟩ <;> rfl

/-- What allocations add to the registry are answers to the requests, in order. -/
theorem allocateAll_ok {w w' : Workspace} {requests : List Request} {paths : List Path}
    (h : w.allocateAll requests = (.ok paths, w')) :
    w'.arena.paths = w.arena.paths ++ paths ∧ List.Forall₂ Request.Answers requests paths := by
  induction requests generalizing w paths with
  | nil => cases h; simp
  | cons r rest ih =>
    simp only [allocateAll] at h
    split at h
    · cases h
    · next path w₁ ha =>
      split at h
      · cases h
      · next rest' w₂ hr =>
        cases h
        obtain ⟨hp, hf⟩ := ih hr
        have hone := paths_allocate_of_ok (congrArg Prod.fst ha)
        rw [ha] at hone
        exact ⟨by rw [hp, hone]; simp, .cons (answers_of_allocate ha) hf⟩

/-- Several allocations fail at the first one that does. -/
theorem allocateAll_error {w w' : Workspace} {requests : List Request} {e : PipelineError}
    (h : w.allocateAll requests = (.error e, w')) :
    ∃ before r after w₁, requests = before ++ r :: after ∧ w.Grants before ∧
      (w.allocateAll before).2 = w₁ ∧ w₁.allocate r.name r.extension = (.error e, w') := by
  induction requests generalizing w with
  | nil => cases h
  | cons r rest ih =>
    simp only [allocateAll] at h
    split at h
    · next ha =>
      cases h
      exact ⟨[], r, rest, w, rfl, ⟨[], rfl⟩, rfl, ha⟩
    · next path w₁ ha =>
      split at h
      · next hr =>
        cases h
        obtain ⟨before, r', after, w₂, he, ⟨paths, hg⟩, hw, hf⟩ := ih hr
        rcases hb : w₁.allocateAll before with ⟨_ | paths', w₃⟩
        · rw [hb] at hg; cases hg
        refine ⟨r :: before, r', after, w₂, by rw [he]; rfl, ⟨path :: paths', ?_⟩, ?_, hf⟩
        · simp only [allocateAll, ha, hb]
        · rw [← hw]; simp only [allocateAll, ha, hb]
      · cases h

end Workspace

namespace AssemblyM

variable {α β : Type}

theorem run_bind (m : AssemblyM α) (f : α → AssemblyM β) (w : Workspace) :
    (m >>= f).run w =
      match m.run w with
      | (.ok a, w') => (f a).run w'
      | (.error e, w') => (.error e, w') := by
  change (match m.run w with | (x, w') => ExceptT.bindCont f x w') = _
  rcases m.run w with ⟨_ | a, w'⟩ <;> rfl

theorem run_ofExcept (x : Except PipelineError α) (w : Workspace) :
    (ofExcept x).run w = (x, w) := by
  cases x <;> rfl

/-- The step makes exactly these allocations. It fails only where one of them is refused, and
otherwise ends in a result that stands in the stated relation to the paths drawn. -/
def Draws (m : AssemblyM α) (requests : List Request) (w : Workspace)
    (Q : List Path → α → Prop) : Prop :=
  match w.allocateAll requests with
  | (.ok paths, w') => ∃ a, m.run w = (.ok a, w') ∧ Q paths a
  | (.error e, w') => m.run w = (.error e, w')

/-- The step makes exactly these allocations, and fails with the stated error when all of them
succeed. -/
def Rejects (m : AssemblyM α) (requests : List Request) (w : Workspace)
    (error : PipelineError) : Prop :=
  match w.allocateAll requests with
  | (.ok _, w') => m.run w = (.error error, w')
  | (.error e, w') => m.run w = (.error e, w')

variable {m : AssemblyM α} {f : α → AssemblyM β} {requests after : List Request} {w : Workspace}
  {Q : List Path → α → Prop} {error : PipelineError}

theorem draws_pure {a : α} (h : Q [] a) : Draws (pure a) [] w Q := ⟨a, rfl, h⟩

theorem draws_ofExcept {x : Except PipelineError α} {a : α} (hx : x = .ok a) :
    Draws (ofExcept x) [] w fun _ b => b = a := by
  subst hx
  exact draws_pure rfl

theorem rejects_throw : Rejects (throw error : AssemblyM α) [] w error := rfl

theorem rejects_ofExcept {x : Except PipelineError α} (hx : x = .error error) :
    Rejects (ofExcept x) [] w error := by
  subst hx
  exact rejects_throw

theorem Draws.mono {R : List Path → α → Prop} (h : Draws m requests w Q)
    (hq : ∀ paths a, List.Forall₂ Request.Answers requests paths → Q paths a → R paths a) :
    Draws m requests w R := by
  unfold Draws at h ⊢
  rcases ha : w.allocateAll requests with ⟨e | paths, w'⟩
  · simpa only [ha] using h
  · simp only [ha] at h ⊢
    obtain ⟨a, hr, ha'⟩ := h
    exact ⟨a, hr, hq paths a (Workspace.allocateAll_ok ha).2 ha'⟩

theorem Draws.bind {R : List Path → β → Prop} (h : Draws m requests w Q)
    (hf : ∀ paths a w', List.Forall₂ Request.Answers requests paths → Q paths a →
      Draws (f a) after w' fun paths' b => R (paths ++ paths') b) :
    Draws (m >>= f) (requests ++ after) w R := by
  unfold Draws at h ⊢
  rw [Workspace.allocateAll_append, run_bind]
  rcases ha : w.allocateAll requests with ⟨e | paths, w'⟩
  · simp only [ha] at h ⊢
    rw [h]
  · simp only [ha] at h
    obtain ⟨a, hr, hq⟩ := h
    have hb := hf paths a w' (Workspace.allocateAll_ok ha).2 hq
    unfold Draws at hb
    rw [hr]
    rcases hc : w'.allocateAll after with ⟨e | paths', w''⟩ <;> simpa only [hc, Except.map] using hb

/-- A step that draws before one that only returns. -/
theorem Draws.bind_pure {g : α → β} {R : List Path → β → Prop} (h : Draws m requests w Q)
    (hg : ∀ paths a, Q paths a → R paths (g a)) :
    Draws (m >>= fun a => pure (g a)) requests w R := by
  have hb : Draws (m >>= fun a => pure (g a)) (requests ++ []) w R :=
    h.bind fun paths a w' _ hq => draws_pure (by rw [List.append_nil]; exact hg paths a hq)
  rwa [List.append_nil] at hb

theorem Draws.bind_rejects (h : Draws m requests w Q)
    (hf : ∀ paths a w', Q paths a → Rejects (f a) after w' error) :
    Rejects (m >>= f) (requests ++ after) w error := by
  unfold Draws at h
  unfold Rejects
  rw [Workspace.allocateAll_append, run_bind]
  rcases ha : w.allocateAll requests with ⟨e | paths, w'⟩
  · simp only [ha] at h ⊢
    rw [h]
  · simp only [ha] at h
    obtain ⟨a, hr, hq⟩ := h
    have hb := hf paths a w' hq
    unfold Rejects at hb
    rw [hr]
    rcases hc : w'.allocateAll after with ⟨e | paths', w''⟩ <;> simpa only [hc, Except.map] using hb

theorem Rejects.bind (h : Rejects m requests w error) : Rejects (m >>= f) requests w error := by
  unfold Rejects at h ⊢
  rw [run_bind]
  rcases ha : w.allocateAll requests with ⟨e | paths, w'⟩ <;>
    (simp only [ha] at h ⊢; rw [h])

/-- A step without allocations before one that draws. -/
theorem Draws.pure_bind {P : α → Prop} {R : List Path → β → Prop}
    (h : Draws m [] w fun _ a => P a) (hf : ∀ a, P a → Draws (f a) after w R) :
    Draws (m >>= f) after w R := by
  obtain ⟨a, hr, hq⟩ := h
  have hb := hf a hq
  unfold Draws at hb ⊢
  rw [run_bind, hr]
  exact hb

section Outcome

variable {a : α} {w' : Workspace} {e : PipelineError}

theorem Draws.of_run_ok (h : Draws m requests w Q) (hr : m.run w = (.ok a, w')) :
    ∃ paths, w.allocateAll requests = (.ok paths, w') ∧ Q paths a := by
  unfold Draws at h
  rcases hw : w.allocateAll requests with ⟨e | paths, w₁⟩
  · rw [hw, hr] at h
    cases h
  · rw [hw] at h
    obtain ⟨a', hrun, hq⟩ := h
    rw [hr] at hrun
    cases hrun
    exact ⟨paths, rfl, hq⟩

theorem Draws.of_run_error (h : Draws m requests w Q) (hr : m.run w = (.error e, w')) :
    w.allocateAll requests = (.error e, w') := by
  unfold Draws at h
  rcases hw : w.allocateAll requests with ⟨e' | paths, w₁⟩
  · rw [hw, hr] at h
    cases h
    rfl
  · rw [hw] at h
    obtain ⟨a', hrun, -⟩ := h
    rw [hr] at hrun
    cases hrun

theorem Draws.run_of_grants (h : Draws m requests w Q) (hg : w.Grants requests) :
    ∃ a, m.run w = (.ok a, (w.allocateAll requests).2) := by
  obtain ⟨paths, hp⟩ := hg
  unfold Draws at h
  rcases hw : w.allocateAll requests with ⟨e' | paths', w₁⟩
  · rw [hw] at hp
    cases hp
  · rw [hw] at h
    obtain ⟨a, hrun, -⟩ := h
    exact ⟨a, hrun⟩

theorem Rejects.run_ne_ok (h : Rejects m requests w error) : m.run w ≠ (.ok a, w') := by
  intro hr
  unfold Rejects at h
  rcases hw : w.allocateAll requests with ⟨e' | paths, w₁⟩
  all_goals
    rw [hw, hr] at h
    cases h

theorem Rejects.of_run_error (h : Rejects m requests w error) (hr : m.run w = (.error e, w')) :
    (∃ paths, w.allocateAll requests = (.ok paths, w')) ∧ e = error ∨
      w.allocateAll requests = (.error e, w') := by
  unfold Rejects at h
  rcases hw : w.allocateAll requests with ⟨e' | paths, w₁⟩
  · rw [hw, hr] at h
    cases h
    exact Or.inr rfl
  · rw [hw, hr] at h
    cases h
    exact Or.inl ⟨⟨paths, rfl⟩, rfl⟩

end Outcome

end AssemblyM

theorem CompilationUnit.run_attachOutput_none (u : CompilationUnit) (extension : String)
    (w : Workspace) :
    (u.attachOutput none extension).run w = u.appendTemporary w extension := rfl

theorem AssemblyContext.run_buildAction (ctx : AssemblyContext) (kind : ActionKind)
    (units : List CompilationUnit) (w : Workspace) :
    (ctx.buildAction kind units).run w = (Action.build ctx.settings w.fs kind units, w) :=
  AssemblyM.run_ofExcept _ w

end CompilerDriver
