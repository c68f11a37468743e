import CompilerDriver.Proofs.Dataflow
import CompilerDriver.Proofs.WorkspaceGrowth

/-!
# The files that a command names

A kind of action has one template under the settings, and the files of an action
are all that its commands can differ in. They stand between the same words every
time, as the bytes that they are, so the arguments of a command tell them back.
What is displayed does not: paths that are no text may look alike.
-/
namespace CompilerDriver

/-- The files of an action on these units, by its kind: one unit has what it reads and what it
writes, and of several units the first is written and the outputs of the others are read. -/
inductive ActionKind.Binds (kind : ActionKind) : List CompilationUnit → Binding → Prop where
  | single {u : CompilationUnit} {input output : Path} : kind.arity = .single →
      u.currentInput = .ok input → u.currentOutput = .ok output → Binds kind [u] ⟨output, [input]⟩
  | merge {target : CompilationUnit} {others : List CompilationUnit} {output : Path}
      {inputs : List Path} : kind.arity = .merge → others ≠ [] →
      target.currentOutput = .ok output →
      others.mapM CompilationUnit.currentOutput = .ok inputs →
      Binds kind (target :: others) ⟨output, inputs⟩

/-- What the commands of a kind tell of their files. -/
structure CommandFiles (settings : BuildSettings) (fs : FileSystem) (kind : ActionKind) : Prop where
  /-- An action can be built of the units that its kind binds. Besides, a pass needs the
  database. -/
  builds : ∀ units, (∃ a, Action.build settings fs kind units = .ok a) ↔
    (kind.isPass = true → settings.config.database.isSome = true) ∧ ∃ b, kind.Binds units b
  /-- Between words that are the same for all units stand the bytes of the files. -/
  spelled : ∃ leading trailing, ∀ units a b, Action.build settings fs kind units = .ok a →
    kind.Binds units b → a.command.args = leading ++
      (if kind = .copy then b.inputs.map Path.bytes ++ [b.output.bytes]
        else Utf8.encode "-o" :: b.output.bytes :: b.inputs.map Path.bytes) ++ trailing
  /-- The arguments tell the files, in number and in order and byte for byte. -/
  determined : ∀ units units' a a' b b', Action.build settings fs kind units = .ok a →
    Action.build settings fs kind units' = .ok a' → kind.Binds units b → kind.Binds units' b' →
    a.command.args = a'.command.args →
    b.output.bytes = b'.output.bytes ∧ b.inputs.map Path.bytes = b'.inputs.map Path.bytes
  /-- Commands on different files may be displayed alike. -/
  ambiguous : (kind.isPass = true → settings.config.database.isSome = true) →
    ∃ units units' a a' b b', Action.build settings fs kind units = .ok a ∧
      Action.build settings fs kind units' = .ok a' ∧ kind.Binds units b ∧ kind.Binds units' b' ∧
      a.command.display = a'.command.display ∧ a.command.args ≠ a'.command.args ∧
      b.output ≠ b'.output ∧ b.inputs ≠ b'.inputs

namespace Binding

theorem operands_injective (order : OperandOrder) :
    Function.Injective fun b : Binding => b.operands order := by
  have hbytes : Function.Injective Path.bytes := fun ⟨_⟩ ⟨_⟩ h => congrArg Path.mk h
  rintro ⟨output, inputs⟩ ⟨output', inputs'⟩ h
  cases order with
  | outputFlag =>
    obtain ⟨-, h⟩ := List.cons.inj h
    obtain ⟨houtput, hinputs⟩ := List.cons.inj h
    obtain rfl : output = output' := hbytes houtput
    obtain rfl : inputs = inputs' := List.map_injective_iff.mpr hbytes hinputs
    rfl
  | inputsFirst =>
    obtain ⟨hinputs, houtput⟩ := List.append_inj' h rfl
    obtain rfl : output = output' := hbytes (List.singleton_inj.mp houtput)
    obtain rfl : inputs = inputs' := List.map_injective_iff.mpr hbytes hinputs
    rfl

end Binding

/-- Commands of one template name the same files, if they have the same arguments. -/
theorem Template.eq_of_args_eq {t : Template} {b b' : Binding}
    (h : (t.command b).args = (t.command b').args) : b = b' := by
  have hoperands : b.operands t.order = b'.operands t.order :=
    List.append_cancel_left (List.append_cancel_right h)
  exact Binding.operands_injective t.order hoperands

theorem BuildSettings.exists_template_iff {settings : BuildSettings} {fs : FileSystem}
    {kind : ActionKind} : (∃ t, settings.template fs kind = .ok t) ↔
      (kind.isPass = true → settings.config.database.isSome = true) := by
  refine ⟨fun ⟨t, ht⟩ hp => ?_, settings.exists_template fs⟩
  have hpass {plugin : String} (h : settings.pass kind plugin = .ok t) :
      settings.config.database.isSome = true := by
    unfold pass at h
    split at h
    · cases h
    · next hd => rw [hd]; rfl
  cases kind with
  | deviceAnalyze | deviceTransform | hostTransform => exact hpass ht
  | _ => cases hp

/-- A copy names its inputs first. Every other command has its output first, after a `-o`. -/
theorem BuildSettings.operands_of_template {settings : BuildSettings} {fs : FileSystem}
    {kind : ActionKind} {t : Template} {b : Binding} (h : settings.template fs kind = .ok t) :
    b.operands t.order = if kind = .copy then b.inputs.map Path.bytes ++ [b.output.bytes]
      else Utf8.encode "-o" :: b.output.bytes :: b.inputs.map Path.bytes := by
  split_ifs with hk
  · subst hk
    cases h
    rfl
  · rw [order_of_template h hk]
    rfl

namespace ActionKind

variable {settings : BuildSettings} {fs : FileSystem} {kind : ActionKind}
  {units : List CompilationUnit} {b : Binding} {t : Template} {a : Action}

theorem Binds.build_eq (h : kind.Binds units b) (ht : settings.template fs kind = .ok t) :
    Action.build settings fs kind units = .ok { kind := kind, template := t, binding := b } := by
  cases h with
  | single ha hi ho => exact Action.build_single ha ht hi ho
  | merge ha hn ho hi => exact Action.build_merge ha hn ht hi ho

theorem binds_of_bind {target : CompilationUnit} {others : List CompilationUnit}
    (hn : kind.arity.Accepts (target :: others).length)
    (h : Action.bind kind target others = .ok b) : kind.Binds (target :: others) b := by
  cases ha : kind.arity with
  | merge =>
    rw [ha] at hn
    have hothers : others ≠ [] := by
      rintro rfl
      exact Nat.not_succ_le_self 1 hn
    simp only [Action.bind, ha] at h
    obtain ⟨output, ho, h⟩ := exists_of_bind_eq_ok h
    obtain ⟨inputs, hi, h⟩ := exists_of_bind_eq_ok h
    cases h
    exact .merge ha hothers ho hi
  | single =>
    rw [ha] at hn
    obtain rfl : others = [] := List.length_eq_zero_iff.mp (Nat.succ.inj hn)
    unfold Action.bind at h
    split at h
    · next hm => rw [ha] at hm; cases hm
    · obtain ⟨input, hi, h⟩ := exists_of_bind_eq_ok h
      obtain ⟨output, ho, h⟩ := exists_of_bind_eq_ok h
      cases h
      exact .single ha hi ho
    · obtain ⟨output, ho, h⟩ := exists_of_bind_eq_ok h
      obtain ⟨input, hi, h⟩ := exists_of_bind_eq_ok h
      cases h
      exact .single ha hi ho

/-- An action that could be built is on the files that its units have. -/
theorem exists_binds_of_build (h : Action.build settings fs kind units = .ok a) :
    (∃ t, settings.template fs kind = .ok t) ∧ ∃ b, kind.Binds units b := by
  unfold Action.build at h
  obtain ⟨_, harity, h⟩ := exists_of_bind_eq_ok h
  obtain ⟨t, ht, h⟩ := exists_of_bind_eq_ok h
  refine ⟨⟨t, ht⟩, ?_⟩
  cases units with
  | nil => cases h
  | cons target others =>
    obtain ⟨binding, hb, -⟩ := exists_of_bind_eq_ok h
    unfold checkArity at harity
    split_ifs at harity with hn
    exact ⟨binding, binds_of_bind hn hb⟩

/-- What could be built is the action of its kind on the files that its units have. -/
theorem exists_eq_of_build (h : Action.build settings fs kind units = .ok a) :
    ∃ t b, settings.template fs kind = .ok t ∧ kind.Binds units b ∧
      a = { kind := kind, template := t, binding := b } := by
  obtain ⟨⟨t, ht⟩, b, hb⟩ := exists_binds_of_build h
  rw [hb.build_eq ht] at h
  exact ⟨t, b, ht, hb, (Except.ok.inj h).symm⟩

end ActionKind

section LookAlikes

/-- Units whose files are all named by one byte. -/
def ActionKind.unitsNamed (kind : ActionKind) (byte : UInt8) : List CompilationUnit :=
  let u := (CompilationUnit.ofSource ⟨[byte]⟩).append ⟨[byte]⟩
  match kind.arity with
  | .single => [u]
  | .merge => [u, u]

def Binding.named (byte : UInt8) : Binding := ⟨⟨[byte]⟩, [⟨[byte]⟩]⟩

theorem ActionKind.binds_unitsNamed (kind : ActionKind) (byte : UInt8) :
    kind.Binds (kind.unitsNamed byte) (.named byte) := by
  unfold unitsNamed
  split
  · next ha => exact .single ha rfl rfl
  · next ha => exact .merge ha (List.cons_ne_nil _ _) rfl rfl

/-- Two bytes that are no text are shown as the same replacement character. -/
theorem Template.display_command_named (t : Template) :
    (t.command (.named 0xFF)).display = (t.command (.named 0xFE)).display := by
  have hoperands : ((Binding.named 0xFF).operands t.order).map Utf8.lossy =
      ((Binding.named 0xFE).operands t.order).map Utf8.lossy := by
    cases t.order <;> decide +kernel
  simp only [Command.display, command, List.map_append, hoperands]

end LookAlikes

/-- For all thirteen kinds, whatever the settings and the file system are. -/
theorem commandFiles_build (settings : BuildSettings) (fs : FileSystem) (kind : ActionKind) :
    CommandFiles settings fs kind where
  builds := by
    intro units
    constructor
    · rintro ⟨a, h⟩
      obtain ⟨ht, hb⟩ := ActionKind.exists_binds_of_build h
      exact ⟨BuildSettings.exists_template_iff.mp ht, hb⟩
    · rintro ⟨hp, b, hb⟩
      obtain ⟨t, ht⟩ := settings.exists_template fs hp
      exact ⟨_, hb.build_eq ht⟩
  spelled := by
    cases ht : settings.template fs kind with
    | error e =>
      refine ⟨[], [], fun units a b h _ => ?_⟩
      obtain ⟨⟨t, ht'⟩, -⟩ := ActionKind.exists_binds_of_build h
      rw [ht] at ht'
      cases ht'
    | ok t =>
      refine ⟨t.leading, t.trailing, fun units a b h hb => ?_⟩
      rw [hb.build_eq ht] at h
      cases h
      rw [← BuildSettings.operands_of_template ht]
      rfl
  determined := by
    intro units units' a a' b b' h h' hb hb' hargs
    obtain ⟨⟨t, ht⟩, -⟩ := ActionKind.exists_binds_of_build h
    rw [hb.build_eq ht] at h
    rw [hb'.build_eq ht] at h'
    cases h
    cases h'
    obtain rfl : b = b' := Template.eq_of_args_eq hargs
    exact ⟨rfl, rfl⟩
  ambiguous := by
    intro hp
    obtain ⟨t, ht⟩ := settings.exists_template fs hp
    have hne : Binding.named 0xFF ≠ Binding.named 0xFE := by decide
    refine ⟨_, _, _, _, _, _, (kind.binds_unitsNamed 0xFF).build_eq ht,
      (kind.binds_unitsNamed 0xFE).build_eq ht, kind.binds_unitsNamed 0xFF,
      kind.binds_unitsNamed 0xFE, t.display_command_named, ?_, by decide, by decide⟩
    exact fun hargs => hne (Template.eq_of_args_eq hargs)

end CompilerDriver
