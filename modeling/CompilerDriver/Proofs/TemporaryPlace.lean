import CompilerDriver.Proofs.AssemblyErrors
import CompilerDriver.Proofs.CommandFiles
import CompilerDriver.Proofs.TwinTemporaries

/-!
# What becomes of a temporary

A temporary lies directly in its directory, however that is written, because
neither the name of a unit nor an extension has a separator. The form that the
next stage finds in it is the one whose extension it was given. It is by this
form alone that the unit is dispatched from there.
-/
namespace CompilerDriver

open CompilationUnit

/-- The path names an entry of the directory, and leads to no other place. -/
structure Path.LiesIn (p dir : Path) (name : Bytes) : Prop where
  fileName : p.fileName = some name
  pieces : p.pieces = dir.pieces ++ [name]
  isAbsolute : p.isAbsolute = dir.isAbsolute
  endsInSlash : p.endsInSlash = false
  /-- An empty path stands for the working directory. -/
  resolve : ∀ (fs : FileSystem) (loc : Location), fs.resolve p = .ok loc →
    ∃ place, fs.node? place = some .directory ∧ loc = place ++ [name] ∧
      (fs.resolve dir = .ok place ∨ dir.isEmpty = true ∧ place = fs.workingDir)

/-- The latest output of the unit is read as an artifact in the form, at every stage. -/
structure CompilationUnit.TakenAs (u : CompilationUnit) (q : Path) (f : Format) : Prop where
  next : u.nextInput = some q
  /-- A stage for single units finds the action of the form. Once there is a file to write, only a
  pass whose database is not configured fails. -/
  accepted : ∀ (ctx : AssemblyContext) (p : Pipeline) (s : Stage) (final : Option Path)
    (extension : String) (actions : StageActions) (w : Workspace) (u' : CompilationUnit)
    (w' : Workspace), s ≠ .link → (ActionKind.dispatch p s (some f)).isSome = true →
    (s = .analyze ∨ s = .transform → ctx.config.database.isSome = true) →
    (u.attachOutput final extension).run w = (.ok u', w') →
    ∃ r, (ctx.assembleUnit p s final extension u actions).run w = (.ok r, w')
  /-- The action that is built is of that kind and reads the output. -/
  bound : ∀ (ctx : AssemblyContext) (p : Pipeline) (s : Stage) (final : Option Path)
    (extension : String) (actions : StageActions) (w : Workspace)
    (r : CompilationUnit × StageActions) (w' : Workspace),
    (ctx.assembleUnit p s final extension u actions).run w = (.ok r, w') →
    ∃ a, ActionKind.dispatch p s (some f) = some a.kind ∧ a.binding.inputs = [q] ∧
      r.2 = actions.extend s [a]
  /-- Where the form has no action, the stage fails and changes nothing. -/
  refused : ∀ (ctx : AssemblyContext) (p : Pipeline) (s : Stage) (final : Option Path)
    (extension : String) (actions : StageActions) (w : Workspace),
    ActionKind.dispatch p s (some f) = none →
    (ctx.assembleUnit p s final extension u actions).run w =
      (.error (.unrecognizedInputFormat q p s), w)
  /-- Link takes the action of the form, or refuses the output. -/
  linked : ∀ (p : Pipeline) (rest : List CompilationUnit) (kind : Option ActionKind),
    AssemblyContext.linkKind p (u :: rest) kind =
      match ActionKind.dispatch p .link (some f) with
      | some k => AssemblyContext.linkKind p rest (some k)
      | none => .error (.unrecognizedInputFormat q p .link)

/-- Temporaries that are named after a path keep the form of their extension. -/
structure KeepsFormat (origin : Path) (f : Format) : Prop where
  place : ∀ (t : Token) (dir : Path), (t.path dir (nameOf origin) f.extension).LiesIn dir
    (t.fileName (nameOf origin) f.extension)
  format : ∀ (t : Token) (dir : Path),
    Format.ofPath? (t.path dir (nameOf origin) f.extension) = some f
  taken : ∀ (t : Token) (dir : Path) (u : CompilationUnit),
    u.current = some (t.path dir (nameOf origin) f.extension) →
    u.TakenAs (t.path dir (nameOf origin) f.extension) f
  /-- Such a temporary is what a unit is given that is named after the path. -/
  allocated : ∀ (u u' : CompilationUnit) (w w' : Workspace), u.name = nameOf origin →
    u.appendTemporary w f.extension = (.ok u', w') → ∃ t : Token,
      u' = u.append (t.path (w.fs.absolute w.arena.dir) (nameOf origin) f.extension) ∧
      w'.arena.paths =
        w.arena.paths ++ [t.path (w.fs.absolute w.arena.dir) (nameOf origin) f.extension]
  /-- A stage for single units passes the unit on with such a temporary, under the same name. -/
  assembled : ∀ (ctx : AssemblyContext) (p : Pipeline) (s : Stage) (u : CompilationUnit)
    (actions : StageActions) (w : Workspace) (r : CompilationUnit × StageActions)
    (w' : Workspace), u.name = nameOf origin →
    (ctx.assembleUnit p s none f.extension u actions).run w = (.ok r, w') →
    r.1.name = nameOf origin ∧ ∃ t : Token,
      r.1.TakenAs (t.path (w.fs.absolute w.arena.dir) (nameOf origin) f.extension) f
  /-- So does link with the combined unit, where the path is the output of the pipeline. -/
  merged : ∀ (ctx : AssemblyContext) (p : Pipeline) (plan plan' : BuildPlan) (w w' : Workspace),
    (ctx.config.pipeline p).output = some origin →
    (∀ u ∈ (plan.pipeline p).combined, u.name = nameOf origin) →
    ctx.stages.isLast .link = false → ctx.tempFormat .link = f →
    (ctx.link p plan).run w = (.ok plan', w') →
    ∃ v ∈ (plan'.pipeline p).combined, v.name = nameOf origin ∧ ∃ t : Token,
      v.TakenAs (t.path (w.fs.absolute w.arena.dir) (nameOf origin) f.extension) f

namespace Path

theorem pieces_append_slash (bytes : Bytes) : pieces ⟨bytes ++ [slash]⟩ = pieces ⟨bytes⟩ := by
  rw [pieces_append]
  exact List.append_nil _

theorem pieces_append_joint (p : Path) : pieces ⟨p.bytes ++ p.joint⟩ = p.pieces := by
  unfold joint
  split_ifs
  · rw [List.append_nil]
  · exact pieces_append_slash _

theorem pieces_join (p : Path) {q : Path} (h : q.isAbsolute = false) :
    (p.join q).pieces = p.pieces ++ q.pieces := by
  rw [join_of_relative h, ← p.pieces_append_joint]
  rcases p.append_joint with hp | hp
  · rw [hp]
    rfl
  · obtain ⟨before, hbefore⟩ := List.getLast?_eq_some_iff.mp hp
    rw [hbefore, pieces_append_slash, List.append_assoc, List.singleton_append, pieces_append]

theorem endsInSlash_join (p : Path) {q : Path} (h : q.isAbsolute = false) (hq : q.bytes ≠ []) :
    (p.join q).endsInSlash = q.endsInSlash := by
  rw [join_of_relative h, endsInSlash, List.getLast?_append_of_ne_nil _ hq, endsInSlash]

end Path

namespace IsEntryName

variable {name : Bytes}

theorem isAbsolute_eq (h : IsEntryName name) : Path.isAbsolute ⟨name⟩ = false := by
  rw [Path.isAbsolute, beq_eq_false_iff_ne]
  exact fun hs => h.slash (List.mem_of_mem_head? hs)

theorem endsInSlash_eq (h : IsEntryName name) : Path.endsInSlash ⟨name⟩ = false := by
  rw [Path.endsInSlash, beq_eq_false_iff_ne]
  exact fun hs => h.slash (List.mem_of_getLast? hs)

theorem pieces_eq (h : IsEntryName name) : Path.pieces ⟨name⟩ = [name] := by
  rw [Path.pieces, List.splitOn_eq_singleton h.slash, List.filter_singleton]
  simp [h.ne_nil]

theorem follow_eq (h : IsEntryName name) (place : Location) :
    Path.follow place name = place ++ [name] := by
  rw [Path.follow, if_neg h.ne_dot, if_neg h.ne_dots]

/-- The entry of a directory is found, if at all, in the place that the directory is. -/
theorem resolve_join (h : IsEntryName name) {dir : Path} {fs : FileSystem} {loc : Location}
    (hr : fs.resolve (dir.join ⟨name⟩) = .ok loc) :
    ∃ place, fs.node? place = some .directory ∧ loc = place ++ [name] ∧
      (fs.resolve dir = .ok place ∨ dir.isEmpty = true ∧ place = fs.workingDir) := by
  obtain ⟨⟨hzero, -, hlength⟩, hfold⟩ := FileSystem.resolve_eq_ok_iff.mp hr
  have horigin : fs.origin (dir.join ⟨name⟩) = fs.origin dir := by
    rw [FileSystem.origin, FileSystem.origin, Path.isAbsolute_join h.isAbsolute_eq]
  rw [horigin, dir.pieces_join h.isAbsolute_eq, h.pieces_eq, List.foldlM_append] at hfold
  obtain ⟨place, hdir, hlast⟩ := exists_of_bind_eq_ok hfold
  obtain ⟨next, hstep, hnext⟩ := exists_of_bind_eq_ok (hlast : fs.step place name >>= _ = _)
  cases hnext
  obtain ⟨hplace, rfl⟩ := FileSystem.step_eq_ok hstep
  refine ⟨place, hplace, h.follow_eq place, ?_⟩
  cases hempty : dir.isEmpty with
  | true =>
    obtain rfl : dir = ⟨[]⟩ := congrArg Path.mk (List.isEmpty_iff.mp hempty)
    cases hdir
    exact Or.inr ⟨rfl, rfl⟩
  | false =>
    rw [Path.join_of_relative h.isAbsolute_eq] at hzero hlength
    simp only [List.append_assoc, List.mem_append, not_or, List.length_append] at hzero hlength
    have hshort : dir.bytes.length ≤ FileSystem.pathLimit := by omega
    exact Or.inl (FileSystem.resolve_eq_ok_iff.mpr ⟨⟨hzero.1, hempty, hshort⟩, hdir⟩)

/-- Whatever the directory is called. -/
theorem liesIn_join (h : IsEntryName name) (dir : Path) : (dir.join ⟨name⟩).LiesIn dir name where
  fileName := h.fileName_join dir
  pieces := by rw [dir.pieces_join h.isAbsolute_eq, h.pieces_eq]
  isAbsolute := Path.isAbsolute_join h.isAbsolute_eq
  endsInSlash := by rw [dir.endsInSlash_join h.isAbsolute_eq h.ne_nil, h.endsInSlash_eq]
  resolve := fun _ _ hr => h.resolve_join hr

end IsEntryName

namespace AssemblyM

variable {α β : Type} {m : AssemblyM α} {f : α → AssemblyM β} {w w' : Workspace}

theorem exists_of_run_bind_eq_ok {b : β} (h : (m >>= f).run w = (.ok b, w')) :
    ∃ a mid, m.run w = (.ok a, mid) ∧ (f a).run mid = (.ok b, w') := by
  rw [run_bind] at h
  rcases hm : m.run w with ⟨e | a, mid⟩
  · rw [hm] at h
    cases h
  · rw [hm] at h
    exact ⟨a, mid, rfl, h⟩

theorem exists_of_run_ofExcept_bind_eq_ok {x : Except PipelineError α} {b : β}
    (h : (ofExcept x >>= f).run w = (.ok b, w')) : ∃ a, x = .ok a ∧ (f a).run w = (.ok b, w') := by
  obtain ⟨a, mid, hrun, hf⟩ := exists_of_run_bind_eq_ok h
  rw [run_ofExcept] at hrun
  obtain ⟨hx, rfl⟩ := Prod.mk.inj hrun
  exact ⟨a, hx, hf⟩

end AssemblyM

namespace AssemblyContext

open AssemblyM

variable {ctx : AssemblyContext} {p : Pipeline} {s : Stage} {final : Option Path}
  {extension : String} {u : CompilationUnit} {actions : StageActions} {w w' : Workspace}
  {r : CompilationUnit × StageActions}

theorem exists_of_run_buildAction_bind_eq_ok {β : Type} {f : Action → AssemblyM β} {b : β}
    {kind : ActionKind} {units : List CompilationUnit}
    (h : (ctx.buildAction kind units >>= f).run w = (.ok b, w')) :
    ∃ a, a.kind = kind ∧ Action.build ctx.settings w.fs kind units = .ok a ∧
      (f a).run w = (.ok b, w') := by
  obtain ⟨a, mid, hrun, hf⟩ := exists_of_run_bind_eq_ok h
  rw [run_buildAction] at hrun
  obtain ⟨hbuild, rfl⟩ := Prod.mk.inj hrun
  obtain ⟨_, _, -, -, ha⟩ := ActionKind.exists_eq_of_build hbuild
  exact ⟨a, congrArg Action.kind ha, hbuild, hf⟩

/-- All that a stage for single units does to one unit, if it succeeds. -/
theorem of_assembleUnit_eq_ok
    (h : (ctx.assembleUnit p s final extension u actions).run w = (.ok r, w')) :
    ∃ u' a, ActionKind.dispatch p s u.nextFormat = some a.kind ∧
      (u.attachOutput final extension).run w = (.ok u', w') ∧
      Action.build ctx.settings w'.fs a.kind [u'] = .ok a ∧
      r = (u'.recordAction ⟨s, (actions.stage s).length⟩, actions.extend s [a]) := by
  unfold assembleUnit at h
  obtain ⟨kind, hkind, h⟩ := exists_of_run_ofExcept_bind_eq_ok h
  obtain ⟨u', mid, hattach, h⟩ := exists_of_run_bind_eq_ok h
  obtain ⟨a, rfl, hbuild, h⟩ := exists_of_run_buildAction_bind_eq_ok h
  cases h
  exact ⟨u', a, dispatch_of_kindFor hkind, hattach, hbuild, rfl⟩

/-- All that link does to a pipeline, if it succeeds. -/
theorem of_link_eq_ok {plan plan' : BuildPlan} (h : (ctx.link p plan).run w = (.ok plan', w')) :
    ∃ output u' a, ctx.finalOutput p = .ok output ∧
      linkKind p (plan.pipeline p).units none = .ok (some a.kind) ∧
      (((plan.pipeline p).combined.getD (.combined output)).attachOutput
        (if ctx.stages.isLast .link then some output else none)
        (ctx.tempFormat .link).extension).run w = (.ok u', w') ∧
      Action.build ctx.settings w'.fs a.kind (u' :: (plan.pipeline p).units) = .ok a ∧
      plan' = plan.put p { plan.pipeline p with
        combined := some (u'.recordAction ⟨.link, (plan.actions.stage .link).length⟩) }
        (plan.actions.extend .link [a]) := by
  unfold link at h
  obtain ⟨output, houtput, h⟩ := exists_of_run_ofExcept_bind_eq_ok h
  obtain ⟨kind?, hkind, h⟩ := exists_of_run_ofExcept_bind_eq_ok h
  cases kind? with
  | none => cases h
  | some kind =>
    obtain ⟨u', mid, hattach, h⟩ := exists_of_run_bind_eq_ok h
    obtain ⟨a, rfl, hbuild, h⟩ := exists_of_run_buildAction_bind_eq_ok h
    cases h
    exact ⟨output, u', a, houtput, hkind, hattach, hbuild, rfl⟩

end AssemblyContext

namespace CompilationUnit

variable {u : CompilationUnit} {q : Path} {f : Format}

/-- An action for one unit with a new output reads what the unit was to read next. -/
theorem inputs_of_binds {kind : ActionKind} {b : Binding} {o : Path}
    (h : kind.Binds [u.append o] b) (hu : u.nextInput = some q) : b.inputs = [q] := by
  cases h with
  | merge _ hothers => exact absurd rfl hothers
  | single _ hinput _ =>
    rw [currentInput_append, hu] at hinput
    cases hinput
    rfl

/-- A unit is read in the form of its latest output. -/
theorem takenAs_of_current (hu : u.current = some q) (hf : Format.ofPath? q = some f) :
    u.TakenAs q f := by
  have hnext : u.nextInput = some q := by rw [nextInput, hu, Option.some_or]
  have hformat : u.nextFormat = some f := by rw [nextFormat, hnext, Option.bind_some, hf]
  have houtput : u.outputFormat = some f := by rw [outputFormat, hu, Option.bind_some, hf]
  have hrefused (p : Pipeline) (s : Stage) :
      u.unrecognized p s = .unrecognizedInputFormat q p s := by
    rw [unrecognized, hnext, Option.getD_some]
  refine
    { next := hnext
      accepted := fun ctx p s final extension actions w u' w' hs hk hd h => ?_
      bound := fun ctx p s final extension actions w r w' h => ?_
      refused := fun ctx p s final extension actions w h => ?_
      linked := fun p rest kind => ?_ }
  · rw [← hformat] at hk
    obtain ⟨paths, hpaths, -⟩ := (AssemblyContext.attachOutput_draws u).of_run_ok h
    have hdraws : AssemblyM.Draws (ctx.assembleUnit p s final extension u actions) _ w _ :=
      AssemblyContext.assembleUnit_draws hs hk hd
    obtain ⟨r, hr⟩ := hdraws.run_of_grants ⟨paths, congrArg Prod.fst hpaths⟩
    rw [hpaths] at hr
    exact ⟨r, hr⟩
  · obtain ⟨u', a, hkind, hattach, hbuild, rfl⟩ := AssemblyContext.of_assembleUnit_eq_ok h
    obtain ⟨o, rfl⟩ := (u.attachOutput_appends w).2 u' (congrArg Prod.fst hattach)
    obtain ⟨_, _, -, hbinds, ha⟩ := ActionKind.exists_eq_of_build hbuild
    have hinputs : a.binding.inputs = [q] := by
      rw [ha]
      exact inputs_of_binds hbinds hnext
    rw [hformat] at hkind
    exact ⟨a, hkind, hinputs, rfl⟩
  · have hkind : u.kindFor p s u.nextFormat = .error (.unrecognizedInputFormat q p s) := by
      rw [kindFor, hformat, h, hrefused]
    unfold AssemblyContext.assembleUnit
    rw [hkind]
    rfl
  · rw [AssemblyContext.linkKind, kindFor, houtput, hrefused]
    cases ActionKind.dispatch p .link (some f) <;> rfl

end CompilationUnit

/-- What a unit is given for a temporary. -/
theorem CompilationUnit.exists_token_of_appendTemporary {u u' : CompilationUnit} {w w' : Workspace}
    {extension : String} (h : u.appendTemporary w extension = (.ok u', w')) : ∃ t : Token,
      u' = u.append (t.path (w.fs.absolute w.arena.dir) u.name extension) ∧
      w'.arena.paths = w.arena.paths ++ [t.path (w.fs.absolute w.arena.dir) u.name extension] := by
  unfold appendTemporary at h
  split at h
  · next q mid ha =>
    cases h
    obtain ⟨t, rfl⟩ : Request.AnswersIn w.fs w.arena.dir ⟨u.name, extension⟩ q :=
      Workspace.answersIn_of_allocate ha
    have hpaths := Workspace.paths_allocate_of_ok (congrArg Prod.fst ha)
    rw [ha, Request.path, t.absolute_path] at hpaths
    rw [Request.path, t.absolute_path]
    exact ⟨t, rfl, hpaths⟩
  · cases h

/-- For all paths, whatever bytes they have, and for all four forms. -/
theorem keepsFormat (origin : Path) (f : Format) : KeepsFormat origin f := by
  have hname : '/' ∉ (nameOf origin).toList := slash_not_mem_nameOf origin
  have hformat (t : Token) (dir : Path) :
      Format.ofPath? (t.path dir (nameOf origin) f.extension) = some f :=
    Format.ofPath?_temporary t dir hname f
  refine
    { place := fun t dir => (t.isEntryName hname f.slash_not_mem_extension).liesIn_join dir
      format := hformat
      taken := fun t dir u hu => takenAs_of_current hu (hformat t dir)
      allocated := fun u u' w w' hu h => ?_
      assembled := fun ctx p s u actions w r w' hu h => ?_
      merged := fun ctx p plan plan' w w' ho hu hl hf h => ?_ }
  · rw [← hu]
    exact exists_token_of_appendTemporary h
  · obtain ⟨u', a, -, hattach, -, rfl⟩ := AssemblyContext.of_assembleUnit_eq_ok h
    obtain ⟨t, rfl, -⟩ := exists_token_of_appendTemporary hattach
    rw [hu]
    exact ⟨hu, t, takenAs_of_current rfl (hformat t _)⟩
  · obtain ⟨output, u', a, houtput, -, hattach, -, rfl⟩ := AssemblyContext.of_link_eq_ok h
    rw [AssemblyContext.finalOutput_eq_ok ho] at houtput
    cases houtput
    have hcombined : ((plan.pipeline p).combined.getD (.combined origin)).name = nameOf origin := by
      cases hc : (plan.pipeline p).combined with
      | none => rfl
      | some u => exact hu u hc
    rw [hl, hf] at hattach
    obtain ⟨t, rfl, -⟩ := exists_token_of_appendTemporary hattach
    rw [plan.pipeline_put_self, hcombined]
    exact ⟨_, rfl, hcombined, t, takenAs_of_current rfl (hformat t _)⟩

/-- Sources without a stem, with a stem that opens with a dot, and with several dots. -/
example : ["a/..", "", ".cl", "k.v2.cl"].map (fun source => Format.ofPath?
    ((Token.ofNat 0).path (.ofString "t/") (nameOf (.ofString source)) ".bc")) =
      List.replicate 4 (some .irBinary) := by
  decide +kernel

end CompilerDriver
