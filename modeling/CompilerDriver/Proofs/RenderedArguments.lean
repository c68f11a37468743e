import CompilerDriver.Session
import CompilerDriver.Proofs.TextEncoding
import CompilerDriver.Proofs.WrittenOptions
import Mathlib.Data.List.Nodup

/-!
# Arguments read back

The same arguments can be written in many ways: under a name or an alias, with the
values of a list apart or in groups, and with the options mixed in any order. All of
them are read as just these arguments, by the build alone and by the whole session.
-/
namespace CompilerDriver

/-- The first name of an option, or else its letter. -/
def Label.ofOpt (o : Opt) : Label :=
  match o.names with
  | text :: _ => name text
  | [] => letter (o.letter?.getD '-')

theorem Label.spells_ofOpt (o : Opt) : (Label.ofOpt o).Spells o := by
  cases o <;> first | rfl | exact List.mem_cons_self

namespace Arguments

/-- The values that the arguments give to an option, in order. -/
def values (a : Arguments) : Opt → List Bytes
  | .deviceInputs => a.deviceInputs.map Path.bytes
  | .hostInputs => a.hostInputs.map Path.bytes
  | .deviceOutput => a.deviceOutput.toList.map Path.bytes
  | .hostOutput => a.hostOutput.toList.map Path.bytes
  | .database => a.database.toList.map Path.bytes
  | .deviceInclude => a.deviceIncludes.map Path.bytes
  | .deviceLibraryDir => a.deviceLibraryDirs.map Path.bytes
  | .hostInclude => a.hostIncludes.map Path.bytes
  | .hostLibraryDir => a.hostLibraryDirs.map Path.bytes
  | .library => a.libraries.map Utf8.encode
  | .tempDir => a.tempDir.toList.map Path.bytes
  | _ => []

/-- Whether the arguments set a switch. -/
def isSet (a : Arguments) : Opt → Bool
  | .onlyCompile => a.onlyCompile
  | .compileAnalyzeTransformOnly => a.compileAnalyzeTransformOnly
  | .emitIntermediate => a.emitIntermediate
  | .noAnalyze => a.noAnalyze
  | .noTransform => a.noTransform
  | .backendStages => a.backendStages
  | .dryRun => a.dryRun
  | _ => false

/-- No path is empty. -/
def HasPaths (a : Arguments) : Prop :=
  ∀ o, o.value? = some .path → ∀ v ∈ a.values o, v ≠ []

/-- The phrases write the arguments: each switch that is set once, and the values of each option in
their order, one to a phrase or several. Nothing is said of how phrases of different options are
mixed. -/
structure Renders (a : Arguments) (phrases : List Phrase) : Prop where
  proper : ∀ p ∈ phrases, p.IsProper Opt.build
  values : ∀ o, (phrases.filter (·.option = o)).flatMap (·.form.values) = a.values o
  switches : ∀ o, o.shape = .switch →
    phrases.countP (·.option = o) = if a.isSet o then 1 else 0

end Arguments

theorem length_le_length_flatMap {α β : Type} {l : List α} {f : α → List β}
    (h : ∀ x ∈ l, f x ≠ []) : l.length ≤ (l.flatMap f).length := by
  induction l with
  | nil => exact Nat.le_refl 0
  | cons x l ih =>
    obtain ⟨hx, hl⟩ := List.forall_mem_cons.mp h
    have hpos := List.length_pos_iff.mpr hx
    have hrest := ih hl
    rw [List.flatMap_cons, List.length_append, List.length_cons]
    omega

theorem flatMap_ite_eq {α β : Type} [DecidableEq α] {l : List α} {x : α} (hl : l.Nodup)
    (hx : x ∈ l) (bs : List β) : (l.flatMap fun y => if y = x then bs else []) = bs := by
  obtain ⟨before, after, rfl⟩ := List.append_of_mem hx
  have hnil {part : List α} (h : x ∉ part) :
      (part.flatMap fun y => if y = x then bs else []) = [] :=
    List.flatMap_eq_nil_iff.mpr fun y hy => if_neg fun (he : y = x) => h (he ▸ hy)
  obtain ⟨hx, -⟩ := List.nodup_cons.mp (List.nodup_middle.mp hl)
  rw [List.mem_append, not_or] at hx
  rw [List.flatMap_append, List.flatMap_cons, hnil hx.1, hnil hx.2, if_pos rfl, List.append_nil,
    List.nil_append]

namespace Arguments

variable {a : Arguments}

theorem values_of_single {o : Opt} {kind : ValueKind} (h : o.shape = .single kind) :
    (a.values o).length ≤ 1 := by
  have htoList (p : Option Path) : (p.toList.map Path.bytes).length ≤ 1 := by
    cases p <;> simp
  cases o with
  | deviceOutput | hostOutput | database | tempDir => exact htoList _
  | settingsFile | directory | logLevel | logFormat => exact Nat.zero_le 1
  | _ => cases h

/-- What the arguments hold is of the kind that the option takes. -/
theorem HasPaths.check (h : a.HasPaths) {o : Opt} {kind : ValueKind} (hk : o.value? = some kind)
    {v : Bytes} (hv : v ∈ a.values o) : kind.check o v = .ok () := by
  cases kind with
  | path => exact if_neg (h o hk v hv)
  | text =>
    obtain rfl : o = .library := by cases o <;> first | rfl | cases hk
    obtain ⟨name, -, rfl⟩ := List.mem_map.mp hv
    exact if_pos (by rw [Utf8.decode?_eq_some_iff.mpr rfl]; rfl)
  | choice names =>
    have hnone : a.values o = [] := by cases o <;> first | rfl | cases hk
    rw [hnone] at hv
    cases hv

namespace Renders

variable {phrases : List Phrase}

theorem mem_values (h : a.Renders phrases) {p : Phrase} (hp : p ∈ phrases) {v : Bytes}
    (hv : v ∈ p.form.values) : v ∈ a.values p.option := by
  rw [← h.values]
  exact List.mem_flatMap.mpr ⟨p, List.mem_filter.mpr ⟨hp, decide_eq_true rfl⟩, hv⟩

/-- What may be given once is written at most once. -/
theorem countP_le_one (h : a.Renders phrases) {o : Opt} (hr : o.isRepeatable = false) :
    phrases.countP (·.option = o) ≤ 1 := by
  cases hs : o.shape with
  | switch =>
    rw [h.switches o hs]
    split <;> decide
  | single kind =>
    have ht : o.takesValue = true := by rw [Opt.takesValue, Opt.value?, hs]; rfl
    have hne : ∀ p ∈ phrases.filter (·.option = o), p.form.values ≠ [] := by
      intro p hp
      obtain ⟨hp, ho⟩ := List.mem_filter.mp hp
      exact (h.proper p hp).form.values_ne_nil (of_decide_eq_true ho ▸ ht)
    rw [List.countP_eq_length_filter]
    calc _ ≤ _ := length_le_length_flatMap hne
      _ = (a.values o).length := by rw [h.values]
      _ ≤ 1 := values_of_single hs
  | inquiry =>
    have hnone : phrases.countP (·.option = o) = 0 := List.countP_eq_zero.mpr fun p hp ho =>
      (h.proper p hp).form.shape_ne_inquiry (of_decide_eq_true ho ▸ hs)
    exact hnone ▸ Nat.zero_le 1
  | counter | repeated kind | several kind => rw [Opt.isRepeatable, hs] at hr; cases hr

/-- The words are read as the occurrences, whatever other options there are. -/
theorem parseOptions_eq (h : a.Renders phrases) (ha : a.HasPaths) {available : List Opt}
    (hb : ∀ o ∈ Opt.build, o ∈ available) :
    parseOptions available (phrases.flatMap Phrase.words) =
      .ok (phrases.map Phrase.occurrence) := by
  refine (Phrase.parseWords_flatMap_words (fun p hp => ?_) (fun p hp kind hk v hv => ?_)
    (fun o ho => ?_) rfl).trans (congrArg Except.ok (List.nil_append _))
  · obtain ⟨ho, hl, hf⟩ := h.proper p hp
    exact ⟨hb _ ho, hl, hf⟩
  · exact ha.check hk (h.mem_values hp hv)
  · rw [List.nil_append, List.countP_map]
    exact h.countP_le_one ho

theorem valuesOf_eq (h : a.Renders phrases) (o : Opt) :
    valuesOf (phrases.map Phrase.occurrence) o = a.values o := by
  rw [valuesOf, List.filter_map, List.flatMap_map, ← h.values]
  rfl

theorem isGiven_eq (h : a.Renders phrases) {o : Opt} (ho : o.shape = .switch) :
    isGiven (phrases.map Phrase.occurrence) o = a.isSet o := by
  have hcount := h.switches o ho
  rw [isGiven, List.any_map]
  cases hset : a.isSet o with
  | true =>
    rw [hset, if_pos rfl] at hcount
    obtain ⟨p, hp, hpo⟩ := List.countP_pos_iff.mp (hcount ▸ Nat.one_pos)
    exact List.any_eq_true.mpr ⟨p, hp, hpo⟩
  | false =>
    rw [hset, if_neg Bool.false_ne_true] at hcount
    exact List.any_eq_false.mpr fun p hp => List.countP_eq_zero.mp hcount p hp

theorem map_mk_map_bytes (paths : List Path) : (paths.map Path.bytes).map Path.mk = paths := by
  rw [List.map_map]
  exact List.map_id paths

theorem map_lossy_map_encode (texts : List String) :
    (texts.map Utf8.encode).map Utf8.lossy = texts := by
  rw [List.map_map]
  exact (List.map_congr_left fun t _ => Utf8.lossy_encode t).trans (List.map_id texts)

/-- The occurrences say just what the arguments are. -/
theorem ofOccurrences_eq (h : a.Renders phrases) :
    Arguments.ofOccurrences (phrases.map Phrase.occurrence) = a := by
  have hhead (p : Option Path) : p.toList.head? = p := by cases p <;> rfl
  simp (disch := decide) only [ofOccurrences, pathOf?, pathsOf, h.valuesOf_eq, h.isGiven_eq,
    Arguments.values, isSet, map_mk_map_bytes, map_lossy_map_encode, hhead]

/-- Beside the arguments, nothing is said about the session. -/
theorem invocation_eq (h : a.Renders phrases) :
    Invocation.ofOccurrences (phrases.map Phrase.occurrence) = { arguments := a } := by
  have hverbose : Invocation.countOf (phrases.map Phrase.occurrence) .verbose = 0 := by
    have hnone : (phrases.map Phrase.occurrence).countP (·.option = .verbose) = 0 := by
      rw [List.countP_map]
      refine List.countP_eq_zero.mpr fun p hp ho => ?_
      have hbuild := (h.proper p hp).available
      rw [show p.option = .verbose from of_decide_eq_true ho] at hbuild
      revert hbuild
      decide
    rw [Invocation.countOf, hnone]
    rfl
  simp (disch := decide) only [Invocation.ofOccurrences, h.ofOccurrences_eq, hverbose, pathOf?,
    pathsOf, h.valuesOf_eq, h.isGiven_eq, Arguments.values, isSet]
  rfl

end Renders

/-- One way to write what the arguments say to an option: value by value, under its label. -/
def phrasesOf (a : Arguments) (o : Opt) : List Phrase :=
  (a.values o).map (⟨o, .ofOpt o, .attached ·⟩) ++
    if a.isSet o then [⟨o, .ofOpt o, .alone⟩] else []

/-- One way to write the arguments: option by option. -/
def plainly (a : Arguments) : List Phrase := Opt.all.flatMap a.phrasesOf

theorem takesValue_of_mem_values {o : Opt} {v : Bytes} (h : v ∈ a.values o) :
    o.takesValue = true := by
  cases o <;> first | rfl | cases h

theorem shape_of_isSet {o : Opt} (h : a.isSet o = true) : o.shape = .switch := by
  cases o <;> first | rfl | cases h

theorem option_of_mem_phrasesOf {o : Opt} {p : Phrase} (h : p ∈ a.phrasesOf o) :
    p.option = o ∧ p.label = .ofOpt o ∧ p.form.Suits o := by
  rcases List.mem_append.mp h with h | h
  · obtain ⟨v, hv, rfl⟩ := List.mem_map.mp h
    exact ⟨rfl, rfl, takesValue_of_mem_values hv⟩
  · split at h
    · next hset =>
      obtain rfl := List.mem_singleton.mp h
      exact ⟨rfl, rfl, Or.inl (shape_of_isSet hset)⟩
    · cases h

theorem mem_build_of_mem_phrasesOf {o : Opt} {p : Phrase} (h : p ∈ a.phrasesOf o) :
    o ∈ Opt.build := by
  cases o <;> first | decide | cases h

theorem filter_plainly (o : Opt) : a.plainly.filter (·.option = o) = a.phrasesOf o := by
  have hf (x : Opt) : (a.phrasesOf x).filter (·.option = o) =
      if x = o then a.phrasesOf o else [] := by
    split
    · next hx =>
      subst hx
      exact List.filter_eq_self.mpr fun p hp => decide_eq_true (option_of_mem_phrasesOf hp).1
    · next hx =>
      refine List.filter_eq_nil_iff.mpr fun p hp hpo => hx ?_
      rw [← (option_of_mem_phrasesOf hp).1]
      exact of_decide_eq_true hpo
  rw [plainly, List.filter_flatMap]
  simp only [hf]
  exact flatMap_ite_eq (by decide) o.mem_all _

theorem renders_plainly (a : Arguments) : a.Renders a.plainly where
  proper p hp := by
    obtain ⟨o, -, hp⟩ := List.mem_flatMap.mp hp
    have hb := mem_build_of_mem_phrasesOf hp
    obtain ⟨rfl, hl, hf⟩ := option_of_mem_phrasesOf hp
    exact ⟨hb, hl ▸ Label.spells_ofOpt _, hf⟩
  values o := by
    have hswitch : (if a.isSet o then [(⟨o, .ofOpt o, .alone⟩ : Phrase)] else []).flatMap
        (·.form.values) = [] := by
      split <;> rfl
    rw [filter_plainly, phrasesOf, List.flatMap_append, hswitch, List.append_nil, List.flatMap_map]
    exact List.flatMap_singleton' _
  switches o ho := by
    have hnone : a.values o = [] := by cases o <;> first | rfl | cases ho
    rw [List.countP_eq_length_filter, filter_plainly, phrasesOf, hnone]
    split <;> rfl

/-- However the arguments are written, they are read back, and they can be written. -/
structure ReadBack (a : Arguments) : Prop where
  written : ∃ phrases, a.Renders phrases
  arguments : ∀ phrases, a.Renders phrases →
    Arguments.parse (phrases.flatMap Phrase.words) = .ok a
  invocation : ∀ phrases, a.Renders phrases →
    Invocation.parse (phrases.flatMap Phrase.words) = .ok { arguments := a }

theorem readBack (h : a.HasPaths) : a.ReadBack where
  written := ⟨a.plainly, a.renders_plainly⟩
  arguments phrases hr := by
    rw [Arguments.parse, hr.parseOptions_eq h fun _ ho => ho]
    exact congrArg Except.ok hr.ofOccurrences_eq
  invocation phrases hr := by
    rw [Invocation.parse, hr.parseOptions_eq h fun o _ => o.mem_all]
    exact congrArg Except.ok hr.invocation_eq

end Arguments

namespace Sample

/-- Values that look like options, and bytes that are no text. -/
def hardArguments : Arguments :=
  { deviceInputs := [.ofString "a.cl", .ofString "b=c.cl", .ofString "--db=k.cl"]
    hostOutput := some ⟨[0xFF, 0x3D]⟩
    compileAnalyzeTransformOnly := true
    dryRun := true
    libraries := ["=m", "-l"] }

/-- An alias, a group, and a value of the same option after other options. -/
def hardPhrases : List Phrase :=
  [⟨.library, .letter 'l', .attached (Utf8.encode "=m")⟩,
   ⟨.dryRun, .name "###", .alone⟩,
   ⟨.deviceInputs, .name "bsp-in", .spaced [Utf8.encode "a.cl", Utf8.encode "b=c.cl"]⟩,
   ⟨.compileAnalyzeTransformOnly, .letter 'c', .alone⟩,
   ⟨.hostOutput, .name "host-out", .attached [0xFF, 0x3D]⟩,
   ⟨.deviceInputs, .name "bsp-in", .attached (Utf8.encode "--db=k.cl")⟩,
   ⟨.library, .letter 'l', .attached (Utf8.encode "-l")⟩]

theorem hasPaths_hardArguments : hardArguments.HasPaths := by
  intro o
  cases o <;> decide

theorem renders_hardPhrases : hardArguments.Renders hardPhrases where
  proper := by
    simp only [hardPhrases, List.forall_mem_cons]
    exact ⟨⟨by decide, by decide, rfl⟩, ⟨by decide, by decide, Or.inl rfl⟩,
      ⟨by decide, by decide, ⟨.path, rfl⟩, by decide, by decide⟩,
      ⟨by decide, by decide, Or.inl rfl⟩, ⟨by decide, by decide, rfl⟩,
      ⟨by decide, by decide, rfl⟩, ⟨by decide, by decide, rfl⟩, List.forall_mem_nil _⟩
  values o := by cases o <;> decide
  switches o := by cases o <;> decide

theorem readBack_hardArguments :
    hardArguments.HasPaths ∧ hardArguments.Renders hardPhrases ∧
      Arguments.parse (hardPhrases.flatMap Phrase.words) = .ok hardArguments ∧
      Invocation.parse (hardPhrases.flatMap Phrase.words) = .ok { arguments := hardArguments } :=
  have back := Arguments.readBack hasPaths_hardArguments
  ⟨hasPaths_hardArguments, renders_hardPhrases, back.arguments _ renders_hardPhrases,
    back.invocation _ renders_hardPhrases⟩

end Sample

end CompilerDriver
