import CompilerDriver.Proofs.AlikePlans

/-!
# Actions on renamed files

One run may write other files than another one, each in the place of one of
theirs. If a pipeline compiles the same sources in both, all that its later
stages read are the renamed files, and its actions are the same on renamed files.
-/
namespace CompilerDriver

/-- The path in the place of `drawn'` that a path has in `drawn`. Other paths stay as they are. -/
def counterpart (drawn drawn' : List Path) (q : Path) : Path :=
  ((drawn.zip drawn').lookup q).getD q

/-- The action of a stage on renamed files. The sources that compile reads stay as they are. -/
def Action.renameAt (f : Path → Path) (s : Stage) (a : Action) : Action :=
  { a with
    binding :=
      { output := f a.binding.output
        inputs := if s = .compile then a.binding.inputs else a.binding.inputs.map f } }

section Counterparts

variable {drawn drawn' : List Path} {q q' : Path} {f : Path → Path}

theorem counterpart_of_mem_zip (hn : drawn.Nodup) (hl : drawn.length ≤ drawn'.length)
    (h : (q, q') ∈ drawn.zip drawn') : counterpart drawn drawn' q = q' := by
  obtain ⟨before, after, hsplit⟩ := List.append_of_mem h
  have hkeys : (before.map Prod.fst ++ q :: after.map Prod.fst).Nodup := by
    have hfst := List.map_fst_zip hl
    rw [hsplit, List.map_append, List.map_cons] at hfst
    rwa [hfst]
  have hlookup : (drawn.zip drawn').lookup q = some q' := by
    refine List.lookup_eq_some_iff.mpr ⟨before, after, hsplit, fun e he => ?_⟩
    rw [bne_iff_ne]
    rintro rfl
    exact (List.nodup_middle.mp hkeys).notMem
      (List.mem_append_left _ (List.mem_map_of_mem he))
  rw [counterpart, hlookup, Option.getD_some]

theorem counterpart_of_not_mem (h : q ∉ drawn) : counterpart drawn drawn' q = q := by
  have hlookup : (drawn.zip drawn').lookup q = none := by
    refine List.lookup_eq_none_iff.mpr fun e he => ?_
    rw [bne_iff_ne]
    rintro rfl
    exact h (List.of_mem_zip he).1
  rw [counterpart, hlookup, Option.getD_none]

theorem Stage.reads_map (s : Stage) (f : Path → Path) (front : List Path) :
    s.reads (front.map f) = (s.reads front).map (List.map f) := by
  by_cases hs : s = .link
  · subst hs
    cases front with
    | nil => rfl
    | cons q rest =>
      rw [reads_link (List.cons_ne_nil _ _), List.map_cons, reads_link (List.cons_ne_nil _ _)]
      rfl
  · rw [reads_of_ne_link hs, reads_of_ne_link hs, List.map_map, List.map_map]
    rfl

theorem Action.renameAt_of_ne {s : Stage} (hs : s ≠ .compile) (a : Action) :
    a.renameAt f s = a.rename f := by
  rw [renameAt, if_neg hs]
  rfl

theorem Action.renameAt_compile {a : Action} (h : ∀ q ∈ a.binding.inputs, f q = q) :
    a.renameAt f .compile = a.rename f := by
  rw [renameAt, if_pos rfl, rename, Binding.map, List.map_congr_left h, List.map_id']

theorem Action.Alike.eq_renameAt {s : Stage} {same : Path → Path → Prop} {a a' : Action}
    (h : a.Alike same a') (ho : a'.binding.output = f a.binding.output)
    (hi : a'.binding.inputs = if s = .compile then a.binding.inputs else a.binding.inputs.map f) :
    a' = a.renameAt f s := by
  obtain ⟨kind', template', ⟨output', inputs'⟩, result', launchError'⟩ := a'
  obtain ⟨⟨rfl, -, -, rfl, rfl⟩, rfl⟩ := h
  obtain rfl : output' = _ := ho
  obtain rfl : inputs' = _ := hi
  rfl

/-- Actions that are alike, and whose files are renamed, are renamed actions. -/
theorem map_renameAt_of_alike {s : Stage} {same : Path → Path → Prop}
    {actions actions' : List Action} (h : List.Forall₂ (Action.Alike same) actions actions')
    (ho : actions'.map (·.binding.output) = (actions.map (·.binding.output)).map f)
    (hi : actions'.map (·.binding.inputs) = (actions.map (·.binding.inputs)).map
      fun inputs => if s = .compile then inputs else inputs.map f) :
    actions' = actions.map (·.renameAt f s) := by
  induction h with
  | nil => rfl
  | cons ha _ ih =>
    obtain ⟨houtput, ho⟩ := List.cons.inj ho
    obtain ⟨hinputs, hi⟩ := List.cons.inj hi
    rw [List.map_cons, ← ha.eq_renameAt houtput hinputs, ← ih ho hi]

end Counterparts

theorem Strand.of_append {settings : BuildSettings} {p : Pipeline} {front : List Path}
    {rounds more : List Round} (h : Strand settings p front (rounds ++ more)) :
    Strand settings p front rounds := by
  induction rounds generalizing front with
  | nil => exact .nil
  | cons r rest ih =>
    cases h with
    | cons hrow hrest => exact .cons hrow (ih hrest)

/-- A strand that starts from renamed files and writes renamed files reads renamed files. -/
theorem Strand.map_inputs {settings settings' : BuildSettings} {p : Pipeline} {f : Path → Path}
    {front : List Path} {rounds rounds' : List Round} (h : Strand settings p front rounds)
    (h' : Strand settings' p (front.map f) rounds')
    (ho : List.Forall₂ (fun r r' => r.stage = r'.stage ∧ r'.outputs p = (r.outputs p).map f) rounds
      rounds') :
    List.Forall₂ (fun r r' => (r'.row p).map (·.binding.inputs) =
      ((r.row p).map (·.binding.inputs)).map (List.map f)) rounds rounds' := by
  induction ho generalizing front with
  | nil => exact .nil
  | @cons r r' _ _ hround _ ih =>
    cases h with
    | cons hrow hrest =>
      cases h' with
      | cons hrow' hrest' =>
        obtain ⟨hstage, houtputs⟩ := hround
        rw [houtputs] at hrest'
        refine .cons ?_ (ih hrest hrest')
        rw [hrow.inputs, hrow'.inputs, ← hstage, Stage.reads_map]

/-- A strand that compiles the same sources reads these, and renamed files after that. -/
theorem Strand.map_inputs_of_compile {settings settings' : BuildSettings} {p : Pipeline}
    {f : Path → Path} {front : List Path} {rounds rounds' : List Round} {later : List Stage}
    (h : Strand settings p front rounds) (h' : Strand settings' p front rounds')
    (ho : List.Forall₂ (fun r r' => r.stage = r'.stage ∧ r'.outputs p = (r.outputs p).map f) rounds
      rounds')
    (hs : rounds.map (·.stage) = .compile :: later) (hl : .compile ∉ later) :
    List.Forall₂ (fun r r' => (r'.row p).map (·.binding.inputs) =
      ((r.row p).map (·.binding.inputs)).map fun inputs =>
        if r.stage = .compile then inputs else inputs.map f) rounds rounds' := by
  cases ho with
  | nil => cases hs
  | @cons r r' _ _ hround hrounds =>
    obtain ⟨hfirst, hlater⟩ := List.cons.inj hs
    dsimp only at hfirst
    cases h with
    | cons hrow hrest =>
      cases h' with
      | cons hrow' hrest' =>
        obtain ⟨hstage, houtputs⟩ := hround
        rw [houtputs] at hrest'
        refine .cons ?_ (forall₂_of_mem (hrest.map_inputs hrest' hrounds) ?_)
        · rw [hrow'.inputs, ← hstage, ← hrow.inputs, hfirst]
          exact (List.map_id' _).symm
        · intro r hr r' _ hinputs
          have hne : r.stage ≠ .compile := fun he =>
            hl (hlater ▸ he ▸ List.mem_map_of_mem (f := (·.stage)) hr)
          rw [hinputs]
          simp only [if_neg hne]

end CompilerDriver
