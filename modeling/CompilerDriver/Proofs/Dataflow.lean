import CompilerDriver.Proofs.ActionOrder
import CompilerDriver.Proofs.AssembledPlan

/-!
# What actions read is written before

The artifacts of a plan flow from the sources of a pipeline to its output. An
action reads a source, if it compiles, and otherwise what an earlier action of
the same pipeline has written. Each temporary has one writer and one reader.
The files of an action are those that its command spells out.
-/
namespace CompilerDriver

/-- The command spells out the files of the action. A copy has nothing but its input and its
output as arguments; any other command has the output after a `-o`, and then the inputs. -/
def Action.Spelled (a : Action) : Prop :=
  if a.kind = .copy then
    ∃ input, a.binding.inputs = [input] ∧
      a.command.args = [input.bytes, a.binding.output.bytes]
  else
    ∃ leading trailing, a.command.args = leading ++
      Utf8.encode "-o" :: a.binding.output.bytes :: a.binding.inputs.map Path.bytes ++ trailing

namespace BuildPlan

/-- The action at a place has the path among its inputs. -/
def Reads (plan : BuildPlan) (id : ActionId) (q : Path) : Prop :=
  ∃ a, plan.actions.get? id = some a ∧ q ∈ a.binding.inputs

/-- The action at a place has the path for its output. -/
def Writes (plan : BuildPlan) (id : ActionId) (q : Path) : Prop :=
  ∃ a, plan.actions.get? id = some a ∧ a.binding.output = q

end BuildPlan

/-- The artifacts of a plan with these temporaries are defined before they are used. -/
structure Dataflow (c : Config) (plan : BuildPlan) (temporaries : List Path) : Prop where
  spelled : ∀ id a, plan.actions.get? id = some a → a.Spelled
  owner : ∀ id, (plan.actions.get? id).isSome = true → ∃! p, plan.Owns p id
  /-- The compile actions read the sources, one for each that is listed. -/
  sources : (plan.actions.stage .compile).map (·.binding.inputs) = c.sources.map fun s => [s.2]
  compileOwner : ∀ p i, plan.Owns p ⟨.compile, i⟩ ↔ ∃ q, c.sources[i]? = some (p, q)
  /-- Every other action reads temporaries that its pipeline has written before. -/
  reads : ∀ p id q, id.stage ≠ .compile → plan.Owns p id → plan.Reads id q →
    q ∈ temporaries ∧ ∃ id', id'.Before id ∧ plan.Owns p id' ∧ plan.Writes id' q
  compileOnly : ∀ p id q, q ∈ (c.pipeline p).inputs → plan.Reads id q → id.stage = .compile
  writer : ∀ q ∈ temporaries, ∃! id, plan.Writes id q
  reader : ∀ q ∈ temporaries, ∃! id, plan.Reads id q
  /-- A link action reads the latest output of every unit, in the order of the inputs. -/
  link : ∀ p id a, id.stage = .link → plan.Owns p id → plan.actions.get? id = some a →
    (plan.pipeline p).units.mapM CompilationUnit.currentOutput = .ok a.binding.inputs ∧
      (plan.pipeline p).units.map (·.source) = (c.pipeline p).inputs.map some ∧
      a.binding.inputs.Nodup

namespace Row

variable {settings : BuildSettings} {p : Pipeline} {s : Stage} {front : List Path}
  {actions : List Action} {a : Action} {q : Path}

theorem mem_front (h : Row settings p s front actions) (ha : a ∈ actions)
    (hq : q ∈ a.binding.inputs) : q ∈ front := by
  rw [← s.flatten_reads front, ← h.inputs]
  exact List.mem_flatten_of_mem (List.mem_map_of_mem ha) hq

theorem exists_inputs_eq (h : Row settings p s front actions) (hs : s ≠ .link)
    (ha : a ∈ actions) : ∃ q, a.binding.inputs = [q] := by
  have hm := List.mem_map_of_mem (f := (·.binding.inputs)) ha
  rw [h.inputs, Stage.reads_of_ne_link hs] at hm
  obtain ⟨q, -, hq⟩ := List.mem_map.mp hm
  exact ⟨q, hq.symm⟩

theorem inputs_eq_front (h : Row settings p .link front actions) (ha : a ∈ actions) :
    a.binding.inputs = front := by
  have hm := List.mem_map_of_mem (f := (·.binding.inputs)) ha
  rw [h.inputs, Stage.reads, if_pos rfl] at hm
  split_ifs at hm
  · cases hm
  · exact List.mem_singleton.mp hm

theorem inputs_ne_nil (h : Row settings p s front actions) (ha : a ∈ actions) :
    a.binding.inputs ≠ [] := by
  by_cases hs : s = .link
  · subst hs
    rw [h.inputs_eq_front ha]
    rintro rfl
    have hin := h.inputs
    rw [Stage.reads_nil, List.map_eq_nil_iff] at hin
    rw [hin] at ha
    cases ha
  · obtain ⟨q, hq⟩ := h.exists_inputs_eq hs ha
    rw [hq]
    exact List.cons_ne_nil _ _

/-- At the link stage actions merge, and at no other. -/
theorem arity_eq (h : Row settings p s front actions) (ha : a ∈ actions) :
    a.kind.arity = if s = .link then .merge else .single := by
  obtain ⟨q, hq⟩ := List.exists_mem_of_ne_nil _ (h.inputs_ne_nil ha)
  exact ActionKind.arity_of_dispatch (h.kind a ha q hq)

theorem stage_eq_link (h : Row settings p s front actions) (ha : a ∈ actions)
    (hk : a.kind.arity = .merge) : s = .link := by
  by_contra hne
  have harity := h.arity_eq ha
  rw [hk, if_neg hne] at harity
  cases harity

end Row

namespace BuildSettings

variable {settings : BuildSettings} {fs : FileSystem} {kind : ActionKind} {t : Template}

theorem order_of_template (h : settings.template fs kind = .ok t) (hk : kind ≠ .copy) :
    t.order = .outputFlag := by
  have hpass (plugin : String) (hp : settings.pass kind plugin = .ok t) :
      t.order = .outputFlag := by
    unfold pass at hp
    split at hp
    · cases hp
    · cases hp
      rfl
  cases kind
  case deviceAnalyze => exact hpass _ h
  case deviceTransform => exact hpass _ h
  case hostTransform => exact hpass _ h
  case copy => exact absurd rfl hk
  all_goals
    cases h
    rfl

end BuildSettings

/-- An action with a template of its kind is spelled out, if it has one input in case it is a
copy. -/
theorem Action.spelled_of_template {settings : BuildSettings} {fs : FileSystem} {a : Action}
    (ht : settings.template fs a.kind = .ok a.template)
    (hc : a.kind = .copy → ∃ input, a.binding.inputs = [input]) : a.Spelled := by
  unfold Spelled
  by_cases hk : a.kind = .copy
  · rw [if_pos hk]
    obtain ⟨input, hin⟩ := hc hk
    refine ⟨input, hin, ?_⟩
    rw [hk] at ht
    have htemplate := Except.ok.inj ht
    rw [command, Template.command, ← htemplate, Binding.operands, hin]
    rfl
  · rw [if_neg hk]
    refine ⟨a.template.leading, a.template.trailing, ?_⟩
    rw [command, Template.command, BuildSettings.order_of_template ht hk, Binding.operands]

/-- The actions of a row are spelled out in their commands. -/
theorem Row.spelled {settings : BuildSettings} {p : Pipeline} {s : Stage} {front : List Path}
    {actions : List Action} {a : Action} (h : Row settings p s front actions)
    (ha : a ∈ actions) : a.Spelled := by
  obtain ⟨fs, ht⟩ := (h.built a ha).template
  refine Action.spelled_of_template ht fun hk => ?_
  have hs : s ≠ .link := by
    rintro rfl
    have harity := h.arity_eq ha
    rw [hk, if_pos rfl] at harity
    cases harity
  exact h.exists_inputs_eq hs ha

namespace Round

variable {r : Round} {p : Pipeline} {id : ActionId} {a : Action}

theorem getElem?_actions (r : Round) (p : Pipeline) {i : Nat} (hi : i < (r.row p).length) :
    r.actions[r.offset p + i]? = (r.row p)[i]? := by
  cases p with
  | device =>
    rw [offset, Nat.zero_add, actions, List.getElem?_append_left hi]
  | host =>
    rw [offset, actions, List.getElem?_append_right (Nat.le_add_right _ _), Nat.add_sub_cancel_left]

theorem mem_row_of_holds (h : r.Holds p id) (ha : r.actions[id.index]? = some a) :
    a ∈ r.row p := by
  obtain ⟨-, hl, hu⟩ := h
  obtain ⟨i, hi⟩ := Nat.exists_eq_add_of_le hl
  rw [hi, r.getElem?_actions p (by omega)] at ha
  exact List.mem_of_getElem? ha

theorem exists_holds_of_mem (ha : a ∈ r.row p) :
    ∃ i, r.Holds p ⟨r.stage, i⟩ ∧ r.actions[i]? = some a := by
  obtain ⟨i, hi, rfl⟩ := List.getElem_of_mem ha
  refine ⟨r.offset p + i, ⟨rfl, by simp, by simpa using hi⟩, ?_⟩
  rw [r.getElem?_actions p hi, List.getElem?_eq_getElem hi]

theorem existsUnique_holds (hs : id.stage = r.stage) (hi : id.index < r.actions.length) :
    ∃! p, r.Holds p id := by
  rw [actions, List.length_append] at hi
  by_cases hd : id.index < (r.row .device).length
  · refine ⟨.device, ⟨hs, Nat.zero_le _, by simpa [offset] using hd⟩, ?_⟩
    rintro (_ | _) ⟨-, hl, -⟩
    · rfl
    · exact absurd hd (Nat.not_lt.mpr hl)
  · refine ⟨.host, ⟨hs, Nat.not_lt.mp hd, hi⟩, ?_⟩
    rintro (_ | _) ⟨-, -, hu⟩
    · exact absurd (by simpa [offset] using hu) hd
    · rfl

end Round

namespace Assembled

variable {ctx : AssemblyContext} {plan : BuildPlan} {paths : List Path} {before : List Round}
  {final r : Round} {p : Pipeline} {id : ActionId} {a : Action} {q : Path}

theorem get?_eq (h : Assembled ctx plan paths before final) (hr : r ∈ before ++ [final])
    (hs : id.stage = r.stage) : plan.actions.get? id = r.actions[id.index]? := by
  rw [StageActions.get?, hs, h.stage_of_mem hr]

/-- An action that stands in the plan comes from a row of a round. -/
theorem exists_mem_row (h : Assembled ctx plan paths before final) (ho : plan.Owns p id)
    (ha : plan.actions.get? id = some a) :
    ∃ r ∈ before ++ [final], id.stage = r.stage ∧ a ∈ r.row p := by
  obtain ⟨r, hr, hh⟩ := h.owns_iff.mp ho
  rw [h.get?_eq hr hh.1] at ha
  exact ⟨r, hr, hh.1, Round.mem_row_of_holds hh ha⟩

theorem exists_id_of_mem_row (h : Assembled ctx plan paths before final)
    (hr : r ∈ before ++ [final]) (ha : a ∈ r.row p) :
    ∃ id, id.stage = r.stage ∧ plan.Owns p id ∧ plan.actions.get? id = some a := by
  obtain ⟨i, hh, hi⟩ := Round.exists_holds_of_mem ha
  exact ⟨⟨r.stage, i⟩, rfl, h.owns_iff.mpr ⟨r, hr, hh⟩, by rw [h.get?_eq hr rfl, hi]⟩

theorem existsUnique_owner (h : Assembled ctx plan paths before final)
    (ha : (plan.actions.get? id).isSome = true) : ∃! p, plan.Owns p id := by
  have hactive : ctx.stages.isActive id.stage = true := by
    cases hs : ctx.stages.isActive id.stage with
    | true => rfl
    | false =>
      rw [StageActions.get?, h.stage_eq_nil hs] at ha
      cases ha
  rw [← StagePlan.mem_activeStages_iff, ← h.stages] at hactive
  obtain ⟨r, hr, hs⟩ := List.mem_map.mp hactive
  rw [h.get?_eq hr hs.symm, isSome_getElem?] at ha
  obtain ⟨p, hp, hu⟩ := Round.existsUnique_holds hs.symm ha
  refine ⟨p, h.owns_iff.mpr ⟨r, hr, hp⟩, fun p' ho => hu p' ?_⟩
  obtain ⟨r', hr', hh⟩ := h.owns_iff.mp ho
  obtain rfl := List.inj_on_of_nodup_map h.nodup_stages hr hr' (hs.trans hh.1)
  exact hh

theorem split_activeStages (h : Assembled ctx plan paths before final) {pre post : List Round}
    (hs : before ++ [final] = pre ++ r :: post) :
    ctx.stages.activeStages = pre.map (·.stage) ++ r.stage :: post.map (·.stage) := by
  rw [← h.stages, hs, List.map_append, List.map_cons]

/-- A round with a round after it is not the last one. -/
theorem mem_before_of_split (h : Assembled ctx plan paths before final)
    {pre post : List Round} {r' : Round} (hs : before ++ [final] = pre ++ r :: post)
    (hr : r' ∈ pre) : r' ∈ before ∧ r'.stage.index < r.stage.index := by
  have hlt : r'.stage.index < r.stage.index :=
    (StagePlan.index_lt_of_split (h.split_activeStages hs)).1 _ (List.mem_map_of_mem hr)
  have hle : ∀ x ∈ before ++ [final], x.stage.index ≤ final.stage.index := by
    intro x hx
    obtain hx | hx := List.mem_append.mp hx
    · exact Nat.le_of_lt (h.index_lt hx)
    · exact Nat.le_of_eq (by rw [List.mem_singleton.mp hx])
  have hmem : r' ∈ before ++ [final] := hs ▸ List.mem_append_left _ hr
  refine ⟨(List.mem_append.mp hmem).resolve_right fun hf => ?_, hlt⟩
  have hr' := hle r (hs ▸ List.mem_append_right _ List.mem_cons_self)
  rw [List.mem_singleton.mp hf] at hlt
  omega

/-- What an action reads is a source, if it compiles, and else written by a round before. -/
theorem read_of_mem_row (h : Assembled ctx plan paths before final) (hr : r ∈ before ++ [final])
    (ha : a ∈ r.row p) (hq : q ∈ a.binding.inputs) :
    r.stage = .compile ∧ q ∈ ctx.sourcePaths p ∨
      r.stage ≠ .compile ∧ ∃ r' ∈ before, r'.stage.index < r.stage.index ∧
        ∃ a' ∈ r'.row p, a'.binding.output = q := by
  obtain ⟨pre, post, hs⟩ := List.append_of_mem hr
  have hfront := (h.rounds.row hs p).mem_front ha hq
  have hcompile := h.accepted.done_eq_nil_iff (h.split_activeStages hs)
  rw [List.map_eq_nil_iff] at hcompile
  obtain rfl | ⟨pre, r', rfl⟩ := pre.eq_nil_or_concat'
  · exact Or.inl ⟨hcompile.mp rfl, hfront⟩
  · rw [Rounds.frontAfter, List.getLast?_concat] at hfront
    obtain ⟨a', ha', hq'⟩ := List.mem_map.mp hfront
    obtain ⟨hr', hlt⟩ := h.mem_before_of_split hs (List.mem_append_right _ List.mem_cons_self)
    have hne : r.stage ≠ .compile := fun hc => by simpa using hcompile.mpr hc
    exact Or.inr ⟨hne, r', hr', hlt, a', ha', hq'⟩

theorem output_mem_paths (h : Assembled ctx plan paths before final) (hr : r ∈ before)
    (ha : a ∈ r.row p) : a.binding.output ∈ paths := by
  rw [h.paths_eq]
  refine List.mem_map_of_mem (List.mem_flatMap.mpr ⟨r, hr, ?_⟩)
  cases p with
  | device => exact List.mem_append_left _ ha
  | host => exact List.mem_append_right _ ha

/-- The actions of the plan are spelled out in their commands. -/
theorem spelled (h : Assembled ctx plan paths before final) (ha : plan.actions.get? id = some a) :
    a.Spelled := by
  obtain ⟨p, ho, -⟩ := h.existsUnique_owner (by rw [ha]; rfl)
  obtain ⟨r, hr, -, hrow⟩ := h.exists_mem_row ho ha
  obtain ⟨pre, post, hsplit⟩ := List.append_of_mem hr
  exact (h.rounds.row hsplit p).spelled hrow

/-- The compile stage has one action for each source. -/
theorem exists_compile_round (h : Assembled ctx plan paths before final) :
    ∃ r ∈ before ++ [final], r.stage = .compile ∧
      ∀ p, (r.row p).map (·.binding.inputs) = (ctx.sourcePaths p).map ([·]) := by
  have hm : .compile ∈ (before ++ [final]).map (·.stage) := by
    rw [h.stages, StagePlan.mem_activeStages_iff]
    exact h.accepted.isActive_compile
  obtain ⟨r, hr, hs⟩ := List.mem_map.mp hm
  obtain ⟨pre, post, hsplit⟩ := List.append_of_mem hr
  have hpre := (h.accepted.done_eq_nil_iff (h.split_activeStages hsplit)).mpr hs
  rw [List.map_eq_nil_iff] at hpre
  refine ⟨r, hr, hs, fun p => ?_⟩
  have hne : r.stage ≠ .link := by
    rw [hs]
    decide
  rw [(h.rounds.row hsplit p).inputs, Stage.reads_of_ne_link hne, hpre]
  rfl

theorem map_inputs_compile (h : Assembled ctx plan paths before final) :
    (plan.actions.stage .compile).map (·.binding.inputs) =
      ctx.config.sources.map fun s => [s.2] := by
  obtain ⟨r, hr, hs, hin⟩ := h.exists_compile_round
  rw [← hs, h.stage_of_mem hr, Round.actions, List.map_append, hin, hin, Config.sources,
    List.map_append, List.map_map, List.map_map]
  rfl

theorem owns_compile_iff (h : Assembled ctx plan paths before final) (i : Nat) :
    plan.Owns p ⟨.compile, i⟩ ↔ ∃ q, ctx.config.sources[i]? = some (p, q) := by
  obtain ⟨r, hr, hs, hin⟩ := h.exists_compile_round
  have hlen (p : Pipeline) : (r.row p).length = (ctx.sourcePaths p).length := by
    have hl := congrArg List.length (hin p)
    rwa [List.length_map, List.length_map] at hl
  rw [← hs, h.owns_iff_of_mem hr, hlen, Config.sources, List.getElem?_append, List.length_map,
    List.getElem?_map, List.getElem?_map]
  cases p with
  | device =>
    rw [Round.offset, Nat.zero_add]
    split_ifs with hi
    · rw [List.getElem?_eq_getElem hi]
      exact ⟨fun _ => ⟨_, rfl⟩, fun _ => ⟨Nat.zero_le _, hi⟩⟩
    · refine ⟨fun h' => absurd h'.2 hi, ?_⟩
      rintro ⟨q, hq⟩
      obtain ⟨_, -, he⟩ := Option.map_eq_some_iff.mp hq
      cases he
  | host =>
    rw [Round.offset, hlen]
    split_ifs with hi
    · refine ⟨fun h' => absurd hi (Nat.not_lt.mpr h'.1), ?_⟩
      rintro ⟨q, hq⟩
      obtain ⟨_, -, he⟩ := Option.map_eq_some_iff.mp hq
      cases he
    · have hi' := Nat.not_lt.mp hi
      constructor
      · rintro ⟨-, hu⟩
        have hlt : i - ctx.config.device.inputs.length < ctx.config.host.inputs.length :=
          Nat.sub_lt_left_of_lt_add hi' hu
        exact ⟨_, by rw [List.getElem?_eq_getElem hlt]; rfl⟩
      · rintro ⟨q, hq⟩
        obtain ⟨q', hq', -⟩ := Option.map_eq_some_iff.mp hq
        have hlt := (List.getElem?_eq_some_iff.mp hq').1
        exact ⟨hi', (Nat.sub_lt_iff_lt_add' hi').mp hlt⟩

/-- The units of a pipeline stand in the order of its sources. -/
theorem map_source (h : Assembled ctx plan paths before final) (p : Pipeline) :
    (plan.pipeline p).units.map (·.source) = (ctx.sourcePaths p).map some := by
  have hid := congrArg (List.map Prod.fst) (h.rounds.map_identity p)
  rw [List.map_map, List.map_map, AssemblyContext.pipeline_initial, PipelineUnits.ofInputs,
    List.map_map] at hid
  exact hid

theorem nodup_outputs (h : Assembled ctx plan paths before final) (hn : paths.Nodup)
    (hr : r ∈ before) (p : Pipeline) : (r.outputs p).Nodup := by
  have hrow : (r.row p).Sublist r.actions := by
    cases p with
    | device => exact List.sublist_append_left _ _
    | host => exact List.sublist_append_right _ _
  have hactions : r.actions.Sublist (before.flatMap (·.actions)) := by
    obtain ⟨pre, post, rfl⟩ := List.append_of_mem hr
    rw [List.flatMap_append, List.flatMap_cons]
    exact (List.sublist_append_left _ _).trans (List.sublist_append_right _ _)
  rw [h.paths_eq] at hn
  exact hn.sublist ((hrow.trans hactions).map _)

theorem nodup_inputs_of_link (h : Assembled ctx plan paths before final) (hn : paths.Nodup)
    (hr : r ∈ before ++ [final]) (hs : r.stage = .link) (ha : a ∈ r.row p) :
    a.binding.inputs.Nodup := by
  obtain ⟨pre, post, hsplit⟩ := List.append_of_mem hr
  have hrow := h.rounds.row hsplit p
  rw [hs] at hrow
  rw [hrow.inputs_eq_front ha]
  obtain rfl | ⟨pre, r', rfl⟩ := pre.eq_nil_or_concat'
  · have hcompile := (h.accepted.done_eq_nil_iff (h.split_activeStages hsplit)).mp rfl
    rw [hs] at hcompile
    cases hcompile
  · rw [Rounds.frontAfter, List.getLast?_concat]
    exact h.nodup_outputs hn
      (h.mem_before_of_split hsplit (List.mem_append_right _ List.mem_cons_self)).1 p

theorem existsUnique_writer (h : Assembled ctx plan paths before final) (hn : paths.Nodup)
    (hq : q ∈ paths) (hd : ∀ p, (ctx.config.pipeline p).output ≠ some q) :
    ∃! id, plan.Writes id q := by
  have hfinal : q ∉ final.actions.map (·.binding.output) := by
    rw [Round.map_output_actions, h.outputs_final, h.outputs_final, List.mem_append,
      Option.mem_toList, Option.mem_toList]
    exact not_or.mpr ⟨hd .device, hd .host⟩
  -- All outputs are the paths drawn, once each, and then the configured outputs.
  have hcount : (plan.actions.toList.flatMap fun a => [a.binding.output]).count q = 1 := by
    rw [← List.map_eq_flatMap, h.toList_eq, List.map_append, ← h.paths_eq, List.count_append,
      List.count_eq_one_of_mem hn hq, List.count_eq_zero.mpr hfinal]
  refine (existsUnique_congr fun id => ?_).mp (StageActions.existsUnique_of_count hcount)
  simp only [BuildPlan.Writes, List.mem_singleton, eq_comm (a := q)]

theorem existsUnique_reader (h : Assembled ctx plan paths before final) (hn : paths.Nodup)
    (hq : q ∈ paths) (hd : ∀ p, q ∉ ctx.sourcePaths p) : ∃! id, plan.Reads id q := by
  -- All inputs are the sources, and then the paths drawn, once each.
  have hcount : (plan.actions.toList.flatMap (·.binding.inputs)).count q = 1 := by
    rw [h.flatMap_inputs, List.count_append, List.count_append, List.count_eq_zero.mpr (hd .device),
      List.count_eq_zero.mpr (hd .host), List.count_eq_one_of_mem hn hq]
  exact StageActions.existsUnique_of_count hcount

end Assembled

/-- Whatever stages run, and whatever the library calls the temporaries, as long as it gives new
names, every artifact is written before it is read. -/
theorem dataflow_of_assemble {c : Config} {tools : Toolchain} {stages : StagePlan}
    {plan : BuildPlan} {w w' : Workspace} {temporaries : List Path}
    (hr : StagePlan.resolve c = .ok stages)
    (ha : (Assembler.standard.assemble ⟨c, tools⟩ stages).run w = (.ok plan, w'))
    (hw : w'.arena.paths = w.arena.paths ++ temporaries) (hn : temporaries.Nodup)
    (hd : ∀ q ∈ temporaries, ∀ p, q ∉ (c.pipeline p).inputs ∧ (c.pipeline p).output ≠ some q) :
    Dataflow c plan temporaries := by
  have haccepted := StagePlan.accepted_of_resolve hr
  obtain ⟨-, paths, before, final, hpaths, h⟩ :=
    AssemblyContext.assembled_of_run_eq_ok ⟨⟨c, tools⟩, stages⟩ haccepted ha
  have htemporaries : temporaries = paths := by
    rw [(Workspace.allocateAll_ok hpaths).1, List.append_cancel_left_eq] at hw
    exact hw.symm
  subst htemporaries
  have hreads : ∀ p id q, id.stage ≠ .compile → plan.Owns p id → plan.Reads id q →
      q ∈ temporaries ∧ ∃ id', id'.Before id ∧ plan.Owns p id' ∧ plan.Writes id' q := by
    rintro p id q hid ho ⟨a, hget, hq⟩
    obtain ⟨r, hr, hs, hrow⟩ := h.exists_mem_row ho hget
    obtain ⟨hcompile, -⟩ | ⟨-, r', hr', hlt, a', ha', rfl⟩ := h.read_of_mem_row hr hrow hq
    · exact absurd (hs.trans hcompile) hid
    · obtain ⟨id', hs', ho', hget'⟩ := h.exists_id_of_mem_row (List.mem_append_left _ hr') ha'
      exact ⟨h.output_mem_paths hr' ha', id', Or.inl (by rwa [hs, hs']), ho', a', hget', rfl⟩
  refine
    { spelled := fun id a hget => h.spelled hget
      owner := fun id => h.existsUnique_owner
      sources := h.map_inputs_compile
      compileOwner := fun p i => h.owns_compile_iff i
      reads := hreads
      compileOnly := ?_
      writer := fun q hq => h.existsUnique_writer hn hq fun p => (hd q hq p).2
      reader := fun q hq => h.existsUnique_reader hn hq fun p => (hd q hq p).1
      link := ?_ }
  · rintro p id q hq ⟨a, hget, hqa⟩
    by_contra hid
    obtain ⟨p', ho, -⟩ := h.existsUnique_owner (by rw [hget]; rfl)
    exact (hd q (hreads p' id q hid ho ⟨a, hget, hqa⟩).1 p).1 hq
  · intro p id a hid ho hget
    obtain ⟨r, hr, hs, hrow⟩ := h.exists_mem_row ho hget
    have hlink : r.stage = .link := hs.symm.trans hid
    exact ⟨h.rounds.inputs_of_link hr hlink hrow, h.map_source p,
      h.nodup_inputs_of_link hn hr hlink hrow⟩

theorem dataflow_of_sample :
    ∃ plan, Dataflow Sample.config plan Sample.temporaries ∧ Sample.temporaries.length = 9 := by
  obtain ⟨plan, hrun⟩ := Sample.exists_outcome_eq
  have hn : Sample.temporaries.Nodup := by decide +kernel
  have hd : ∀ q ∈ Sample.temporaries, ∀ p ∈ Pipeline.all,
      q ∉ (Sample.config.pipeline p).inputs ∧ (Sample.config.pipeline p).output ≠ some q := by
    decide +kernel
  have hw : Sample.outcome.2.arena.paths = Sample.workspace.arena.paths ++ Sample.temporaries :=
    (List.nil_append _).symm
  exact ⟨plan, dataflow_of_assemble rfl hrun hw hn fun q hq p => hd q hq p p.mem_all,
    Sample.length_temporaries⟩

end CompilerDriver
