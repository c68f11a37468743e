import CompilerDriver.Proofs.FileLifetime

/-!
# Directories that are taken away

The way to a temporary leads through directories, and where another temporary
was made there was no directory. So a directory that has taken the place of one
temporary is on the way to no other one, and the others do not notice when it is
taken away with everything in it.
-/
namespace CompilerDriver

namespace Path

/-- What lies above the end of a way is its start, above its start, or met on the way. -/
theorem exists_before_of_prefix {above start : Location} {pieces : List Bytes}
    (h : above <+: pieces.foldl follow start) :
    above <+: start ∨
      ∃ before after, pieces = before ++ after ∧ above = before.foldl follow start := by
  induction pieces generalizing start with
  | nil => exact Or.inl h
  | cons piece rest ih =>
    rcases ih h with hstep | ⟨before, after, hrest, habove⟩
    · unfold follow at hstep
      split_ifs at hstep with hdot hparent
      · exact Or.inl hstep
      · exact Or.inl (hstep.trans (List.dropLast_prefix start))
      · rcases List.prefix_concat_iff.mp hstep with hlast | hstart
        · refine Or.inr ⟨[piece], rest, rfl, ?_⟩
          rw [List.foldl_cons, List.foldl_nil, follow, if_neg hdot, if_neg hparent, hlast]
        · exact Or.inl hstart
    · exact Or.inr ⟨piece :: before, after, by rw [hrest]; rfl, habove⟩

end Path

namespace FileSystem

variable {fs fs' g g' : FileSystem} {p q : Path} {paths : List Path} {loc other : Location}
  {found : Location × Node}

theorem isWithin_iff {dir : Location} : isWithin dir loc = true ↔ dir <+: loc := by
  rw [isWithin, decide_eq_true_iff, List.prefix_iff_eq_take, eq_comm]

/-- A path finds the same where its way and its end are the same. -/
theorem find_of_same_way (ha : p.isAbsolute = true)
    (hway : ∀ before after, p.pieces = before ++ after →
      g'.node? (before.foldl Path.follow []) = g.node? (before.foldl Path.follow []))
    (h : g.find p = .ok found) : g'.find p = .ok found := by
  obtain ⟨loc, node⟩ := found
  obtain ⟨hr, hnode, hslash⟩ := find_eq_ok_iff.mp h
  have hloc : loc = p.location := location_of_resolve ha hr
  obtain ⟨hp, hfold⟩ := resolve_eq_ok_iff.mp hr
  rw [origin, if_pos ha] at hfold
  refine find_eq_ok_iff.mpr ⟨resolve_eq_ok_iff.mpr ⟨hp, ?_⟩, ?_, hslash⟩
  · rw [origin, if_pos ha]
    apply foldlM_step_of_directories _ hfold
    intro before after hpieces hne
    rw [hpieces] at hfold
    rw [hway before after hpieces]
    exact directory_of_foldlM_step hne hfold
  · have hend := hway p.pieces [] (List.append_nil _).symm
    rw [hloc] at hnode ⊢
    rw [Path.location, hend]
    exact hnode

theorem lookup_filter_key (entries : List (Location × Node)) (keep : Location → Bool)
    (other : Location) : (entries.filter fun e => keep e.1).lookup other =
      if keep other = true then entries.lookup other else none := by
  induction entries with
  | nil => exact (ite_self none).symm
  | cons e rest ih =>
    obtain ⟨key, node⟩ := e
    by_cases he : other = key
    · subst he
      by_cases hk : keep other = true
      · simp [hk]
      · rw [List.filter_cons_of_neg (by exact hk), ih, if_neg hk, if_neg hk]
    · have hne : (other == key) = false := beq_eq_false_iff_ne.mpr he
      rw [List.lookup_cons, hne, ← ih]
      by_cases hk : keep key = true
      · rw [List.filter_cons_of_pos (by exact hk), List.lookup_cons, hne]
      · rw [List.filter_cons_of_neg (by exact hk)]

theorem node?_removeTree (hne : loc ≠ []) (other : Location) :
    (fs.removeTree loc).node? other = if isWithin loc other then none else fs.node? other := by
  have hlookup := lookup_filter_key fs.entries (fun key => !isWithin loc key) other
  unfold node? removeTree
  rw [hlookup]
  by_cases hother : other = []
  · subst hother
    have hout : isWithin loc [] = false := by
      rw [← Bool.not_eq_true, isWithin_iff, List.prefix_nil]
      exact hne
    rw [hout]
    rfl
  · rw [if_neg hother, if_neg hother]
    cases isWithin loc other <;> rfl

theorem eraseAll_removeTree (fs : FileSystem) (loc : Location) (locs : List Location) :
    (fs.removeTree loc).eraseAll locs = (fs.eraseAll locs).removeTree loc := by
  unfold removeTree eraseAll
  rw [List.filter_filter, List.filter_filter]
  congr 2
  funext e
  rw [Bool.and_comm]

namespace Created

/-- The way to a new file avoids the place of every other one and what lies below it. -/
theorem not_isWithin (h : fs.Created paths fs') (hp : p ∈ paths) (hq : q ∈ paths)
    (hne : q.location ≠ p.location) {before after : List Bytes}
    (hpieces : q.pieces = before ++ after) :
    isWithin p.location (before.foldl Path.follow []) = false := by
  rw [← Bool.not_eq_true, isWithin_iff]
  intro hprefix
  have hfile : fs'.node? p.location = some (.file [] false) := h.node?_of_mem hp
  have hmet : ∃ before after, q.pieces = before ++ after ∧
      p.location = before.foldl Path.follow [] := by
    rcases Path.exists_before_of_prefix hprefix with hnil | ⟨first, second, hbefore, hp⟩
    · exact ⟨[], q.pieces, rfl, List.prefix_nil.mp hnil⟩
    · exact ⟨first, second ++ after, by rw [hpieces, hbefore, List.append_assoc], hp⟩
  obtain ⟨before', after', hpieces', hlocation⟩ := hmet
  by_cases hend : after' = []
  · apply hne
    rw [hlocation, Path.location, hpieces', hend, List.append_nil]
  · obtain ⟨hresolve, -⟩ := find_eq_ok_iff.mp (h.find hq)
    have hfold := (resolve_eq_ok_iff.mp hresolve).2
    rw [origin, if_pos (h.isAbsolute q hq), hpieces'] at hfold
    have hdirectory := directory_of_foldlM_step hend hfold
    rw [← hlocation, hfile] at hdirectory
    cases hdirectory

theorem eq_of_location_eq (h : fs.Created paths fs') (hp : p ∈ paths) (hq : q ∈ paths)
    (he : q.location = p.location) : q = p :=
  List.inj_on_of_nodup_map h.nodup hq hp he

theorem location_ne_nil (h : fs.Created paths fs') (hp : p ∈ paths) : p.location ≠ [] :=
  ne_nil_of_node?_eq_none (h.vacant p hp)

theorem find_removeTree (h : fs.Created paths fs') (hp : p ∈ paths) (hq : q ∈ paths)
    (hne : q.location ≠ p.location) (g : FileSystem) :
    (g.removeTree p.location).find q = .ok found ↔ g.find q = .ok found := by
  have hway : ∀ before after, q.pieces = before ++ after →
      (g.removeTree p.location).node? (before.foldl Path.follow []) =
        g.node? (before.foldl Path.follow []) := by
    intro before after hpieces
    rw [node?_removeTree (h.location_ne_nil hp), h.not_isWithin hp hq hne hpieces]
    rfl
  constructor
  · exact find_of_same_way (h.isAbsolute q hq) fun before after hpieces =>
      (hway before after hpieces).symm
  · exact find_of_same_way (h.isAbsolute q hq) hway

/-- Which temporaries can be removed does not change when a tree at the place of one that cannot
be removed is taken away. -/
theorem isRemovable_removeTree (h : fs.Created paths fs') (hp : p ∈ paths) (hq : q ∈ paths)
    (hg : g.isRemovable p = false) :
    (g.removeTree p.location).isRemovable q = g.isRemovable q := by
  by_cases he : q.location = p.location
  · obtain rfl : q = p := h.eq_of_location_eq hp hq he
    rw [hg, ← Bool.not_eq_true, isRemovable_iff]
    rintro ⟨loc, node, hf, -⟩
    obtain ⟨hr, hnode, -⟩ := find_eq_ok_iff.mp hf
    rw [location_of_resolve (h.isAbsolute q hq) hr, node?_removeTree (h.location_ne_nil hq),
      if_pos (isWithin_iff.mpr (List.prefix_refl _))] at hnode
    cases hnode
  · rw [Bool.eq_iff_iff, isRemovable_iff, isRemovable_iff]
    simp only [h.find_removeTree hp hq he]

end Created

end FileSystem

end CompilerDriver
