import CompilerDriver.CompilationUnit
import CompilerDriver.Proofs.TextEncoding
import CompilerDriver.Temporary

/-!
# Temporaries keep their form

A temporary is named `ac<token>-<name><extension>`. The name of a unit holds no
separator, whatever bytes its path has, so the file lies directly in the
directory of temporaries and its last dot is the one that opens the extension.
The form recognized in a temporary is therefore the form it was made for.
-/
namespace CompilerDriver

namespace Utf8

/-- A character under way whose least possible value lies beyond the ASCII ones. -/
structure Partial.Wide (p : Partial) : Prop where
  due_pos : 0 < p.due
  low : 0x80 ≤ p.low.toNat
  value : 0x80 ≤ (p.bits * 64 + (p.low.toNat - 0x80)) * 64 ^ (p.due - 1)

theorem Partial.wide_of_bits {bits due : Nat} {high : UInt8} (hd : 0 < due)
    (h : 0x80 ≤ bits * 64 * 64 ^ (due - 1)) : Partial.Wide ⟨bits, due, 0x80, high⟩ where
  due_pos := hd
  low := by change 0x80 ≤ (0x80 : UInt8).toNat; decide
  value := by rwa [show (0x80 : UInt8).toNat - 0x80 = 0 from rfl, Nat.add_zero]

theorem Partial.wide_of_lead {b : UInt8} {p : Partial} (h : lead? b = some p) : p.Wide := by
  rcases lead?_eq_some h with ⟨hd, hb, hp, hl, -⟩ | ⟨hd, hb, hp, hl, -⟩ | ⟨hd, hb, hp, hl, -⟩
  all_goals
    refine ⟨by omega, by omega, ?_⟩
    simp only [hd, Nat.reduceSub, Nat.reducePow]
    omega

/-- One byte further, the value is still beyond the ASCII ones. -/
theorem Partial.Wide.next {p : Partial} (h : p.Wide) {b : UInt8} (hb : p.low ≤ b) :
    0x80 ≤ (p.bits * 64 + (b.toNat - 0x80)) * 64 ^ (p.due - 1) := by
  have hle : p.low.toNat ≤ b.toNat := UInt8.le_iff_toNat_le.mp hb
  exact Nat.le_trans h.value (Nat.mul_le_mul_right _ (by omega))

/-- A byte after which more are due leaves the character wide. -/
theorem Partial.wide_tail {bits due : Nat} (hd : 1 < due) (h : 0x80 ≤ bits * 64 ^ (due - 1)) :
    Partial.Wide ⟨bits, due - 1, 0x80, 0xBF⟩ := by
  obtain ⟨n, rfl⟩ : ∃ n, due = n + 2 := ⟨due - 2, by omega⟩
  refine wide_of_bits (by omega) ?_
  have he : bits * 64 ^ (n + 2 - 1) = bits * 64 * 64 ^ (n + 2 - 1 - 1) := by
    rw [show n + 2 - 1 = n + 1 from rfl, Nat.add_sub_cancel, Nat.pow_succ', Nat.mul_assoc]
  rwa [← he]

theorem ofNat_ne_slash {n : Nat} (h : n ≠ 0x2F) : Char.ofNat n ≠ '/' := by
  intro he
  by_cases hv : n.isValidChar
  · exact h ((toNat_ofNat hv).symm.trans (congrArg Char.toNat he))
  · rw [Char.ofNat, dif_neg hv] at he
    cases congrArg Char.toNat he

theorem ofNat_toNat_ne_slash {b : UInt8} (h : b ≠ 0x2F) : Char.ofNat b.toNat ≠ '/' :=
  ofNat_ne_slash fun he => h (UInt8.toNat_inj.mp he)

/-- Only the separator byte itself decodes to the separator, between characters and inside them. -/
theorem slash_not_mem_decode {bs : Bytes} (h : (0x2F : UInt8) ∉ bs) :
    some '/' ∉ decode bs ∧ ∀ p : Partial, p.Wide → some '/' ∉ resume p bs := by
  induction bs with
  | nil => exact ⟨by simp [decode], fun p _ => by simp [resume]⟩
  | cons b rest ih =>
    obtain ⟨hb, hrest⟩ := List.ne_and_not_mem_of_not_mem_cons h
    obtain ⟨ihd, ihr⟩ := ih hrest
    have hc : some '/' ≠ some (Char.ofNat b.toNat) := fun he =>
      ofNat_toNat_ne_slash (Ne.symm hb) (Option.some.inj he).symm
    constructor
    · unfold decode
      split
      · exact List.not_mem_cons_of_ne_of_not_mem hc ihd
      split
      · next p hp => exact ihr p (Partial.wide_of_lead hp)
      · exact List.not_mem_cons_of_ne_of_not_mem (by simp) ihd
    · intro p hp
      unfold resume
      split
      · next hr =>
        have hv := hp.next hr.1
        dsimp only
        split
        · next hd =>
          rw [hd, Nat.sub_self, Nat.pow_zero, Nat.mul_one] at hv
          refine List.not_mem_cons_of_ne_of_not_mem (fun he => ?_) ihd
          exact ofNat_ne_slash (by omega) (Option.some.inj he).symm
        · next hd =>
          have := hp.due_pos
          exact ihr _ (Partial.wide_tail (by omega) hv)
      split
      · exact List.not_mem_cons_of_ne_of_not_mem (by simp)
          (List.not_mem_cons_of_ne_of_not_mem hc ihd)
      split
      · next q hq =>
        exact List.not_mem_cons_of_ne_of_not_mem (by simp) (ihr q (Partial.wide_of_lead hq))
      · exact List.not_mem_cons_of_ne_of_not_mem (by simp)
          (List.not_mem_cons_of_ne_of_not_mem (by simp) ihd)

theorem slash_not_mem_lossy {bs : Bytes} (h : (0x2F : UInt8) ∉ bs) :
    '/' ∉ (lossy bs).toList := by
  rw [lossy, String.toList_ofList, List.mem_map]
  rintro ⟨o, ho, he⟩
  cases o with
  | none => exact absurd he (by decide)
  | some c =>
    obtain rfl : c = '/' := he
    exact (slash_not_mem_decode h).1 ho

theorem slash_not_mem_utf8EncodeChar {c : Char} (h : c ≠ '/') :
    (0x2F : UInt8) ∉ String.utf8EncodeChar c := by
  have hv : c.val.toNat ≠ 0x2F := fun he => h (Char.toNat_inj.mp he)
  have hs : (0x2F : UInt8).toNat = 0x2F := rfl
  simp only [String.utf8EncodeChar]
  split
  · rw [List.mem_singleton, ← UInt8.toNat_inj, UInt8.toNat_ofNat', hs]
    omega
  -- Every byte of a longer encoding has its highest bit set.
  repeat' split
  all_goals
    simp only [List.mem_cons, List.not_mem_nil, or_false, ← UInt8.toNat_inj, UInt8.toNat_ofNat', hs]
    omega

theorem slash_not_mem_encode {s : String} (h : '/' ∉ s.toList) : (0x2F : UInt8) ∉ encode s := by
  rw [encode, encodeChars, List.mem_flatMap]
  rintro ⟨c, hc, hm⟩
  exact slash_not_mem_utf8EncodeChar (fun he => h (he ▸ hc)) hm

end Utf8

theorem not_mem_of_mem_splitOn {α : Type} [DecidableEq α] {a : α} {l piece : List α}
    (h : piece ∈ l.splitOn a) : a ∉ piece := by
  induction l generalizing piece with
  | nil =>
    rw [List.splitOn_nil, List.mem_singleton] at h
    simp [h]
  | cons b rest ih =>
    rw [List.splitOn_cons_eq_if_modifyHead] at h
    split at h
    · rcases List.mem_cons.mp h with rfl | h
      · simp
      · exact ih h
    · next hb =>
      obtain ⟨first, others, he⟩ := List.exists_cons_of_ne_nil (List.splitOn_ne_nil a rest)
      rw [he, List.modifyHead_cons] at h
      rcases List.mem_cons.mp h with rfl | h
      · have hf : a ∉ first := ih (he ▸ List.mem_cons_self)
        exact List.not_mem_cons_of_ne_of_not_mem (fun hab => hb (by simp [hab])) hf
      · exact ih (he ▸ List.mem_cons_of_mem _ h)

namespace Path

theorem slash_not_mem_fileName {p : Path} {name : Bytes} (h : p.fileName = some name) :
    slash ∉ name := by
  unfold fileName at h
  split at h
  · next last hl =>
    split at h
    · cases h
    · obtain rfl := Option.some.inj h
      have hp : last ∈ p.pieces := (List.mem_filter.mp (List.mem_of_getLast? hl)).1
      exact not_mem_of_mem_splitOn (List.mem_filter.mp hp).1
  · cases h

/-- The stem of a name is the name up to a dot, or all of it. -/
theorem splitName_fst_append (name : Bytes) : ∃ rest, name = (splitName name).1 ++ rest := by
  unfold splitName
  split
  · exact ⟨[], (List.append_nil name).symm⟩
  · next stem extension _ h => exact ⟨_, (splitLastDot_eq_some h).1⟩
  · exact ⟨[], (List.append_nil name).symm⟩

theorem slash_not_mem_fileStem (p : Path) : slash ∉ p.fileStem.getD [] := by
  unfold fileStem
  cases h : p.fileName with
  | none => simp
  | some name =>
    obtain ⟨rest, he⟩ := splitName_fst_append name
    intro hm
    exact slash_not_mem_fileName h (he ▸ List.mem_append_left rest hm)

/-- A name below a directory, or alone, is the file name of the path. -/
theorem fileName_append {before name : Bytes} (hb : before = [] ∨ before.getLast? = some slash)
    (hn : slash ∉ name) (h : name ≠ []) (hd : name ≠ [dot]) (hdd : name ≠ [dot, dot]) :
    fileName ⟨before ++ name⟩ = some name := by
  have hp : ∃ rest, (before ++ name).splitOn slash = rest ++ [name] := by
    rcases hb with rfl | hb
    · exact ⟨[], by rw [List.nil_append, List.splitOn_eq_singleton hn, List.nil_append]⟩
    · obtain ⟨dir, rfl⟩ := List.getLast?_eq_some_iff.mp hb
      refine ⟨dir.splitOn slash, ?_⟩
      rw [List.append_assoc, List.singleton_append, List.splitOn_append_cons_self,
        List.splitOn_eq_singleton hn]
  obtain ⟨rest, hp⟩ := hp
  have hl : ((pieces ⟨before ++ name⟩).filter (· ≠ [dot])).getLast? = some name := by
    rw [pieces, hp, List.filter_append, List.filter_append]
    simp [h, hd]
  rw [fileName, hl]
  exact if_neg hdd

theorem extension_append {before stem extension : Bytes}
    (hb : before = [] ∨ before.getLast? = some slash) (hs : slash ∉ stem) (hs0 : stem ≠ [])
    (he : slash ∉ extension) (he0 : extension ≠ []) (hd : dot ∉ extension) :
    Path.extension ⟨before ++ (stem ++ dot :: extension)⟩ = some extension := by
  have hname : slash ∉ stem ++ dot :: extension := by
    simp only [List.mem_append, List.mem_cons, not_or]
    exact ⟨hs, by decide, he⟩
  have hsplit : splitLastDot (stem ++ dot :: extension) = some (stem, extension) :=
    splitLastDot_append hd
  have hdot : stem ++ dot :: extension ≠ [dot] := by
    intro hl
    rw [hl, show splitLastDot [dot] = some ([], []) from rfl] at hsplit
    cases hsplit
    exact he0 rfl
  have hdots : stem ++ dot :: extension ≠ [dot, dot] := by
    intro hl
    rw [hl, show splitLastDot [dot, dot] = some ([dot], []) from rfl] at hsplit
    cases hsplit
    exact he0 rfl
  rw [Path.extension, fileName_append hb hname (by simp) hdot hdots, Option.bind_some, splitName,
    hsplit]
  cases stem with
  | nil => exact absurd rfl hs0
  | cons b rest => rfl

/-- What comes between a path and a relative one below it. -/
def joint (p : Path) : Bytes := if p.isEmpty || p.endsInSlash then [] else [slash]

variable {p q : Path}

theorem join_of_relative (h : q.isAbsolute = false) :
    p.join q = ⟨p.bytes ++ p.joint ++ q.bytes⟩ := by
  unfold join joint
  rw [if_neg (by simp [h])]
  split_ifs
  · rw [List.append_nil]
  · rw [List.append_assoc, List.singleton_append]

theorem joint_eq_nil_iff : p.joint = [] ↔ p.bytes = [] ∨ p.bytes.getLast? = some slash := by
  simp [joint, isEmpty, endsInSlash, or_iff_not_imp_left]

theorem append_joint (p : Path) :
    p.bytes ++ p.joint = [] ∨ (p.bytes ++ p.joint).getLast? = some slash := by
  unfold joint
  split_ifs with hp
  · rw [List.append_nil]
    simpa [isEmpty, endsInSlash] using hp
  · exact Or.inr List.getLast?_concat

/-- What stands before a relative path that is joined ends in a separator, or is nothing. -/
theorem exists_join_eq (p : Path) {q : Path} (h : q.isAbsolute = false) :
    ∃ before, p.join q = ⟨before ++ q.bytes⟩ ∧ (before = [] ∨ before.getLast? = some slash) :=
  ⟨_, join_of_relative h, p.append_joint⟩

theorem isAbsolute_join (h : q.isAbsolute = false) : (p.join q).isAbsolute = p.isAbsolute := by
  obtain ⟨bytes⟩ := p
  rw [join_of_relative h]
  cases bytes with
  | nil => exact h
  | cons b rest => rfl

theorem joint_join (h : q.isAbsolute = false) : (p.join q).joint = q.joint := by
  obtain ⟨bytes⟩ := q
  rw [join_of_relative h]
  rcases List.eq_nil_or_concat bytes with rfl | ⟨rest, b, rfl⟩
  · have hnil : joint ⟨[]⟩ = [] := rfl
    rw [hnil, joint_eq_nil_iff, List.append_nil]
    exact p.append_joint
  · simp [joint, isEmpty, endsInSlash]

/-- It does not matter in which order paths are joined. -/
theorem join_join (p q : Path) {r : Path} (h : r.isAbsolute = false) :
    (p.join q).join r = p.join (q.join r) := by
  cases hq : q.isAbsolute with
  | true =>
    have hqr : (q.join r).isAbsolute = true := by rw [isAbsolute_join h, hq]
    rw [join_of_isAbsolute hq, join_of_isAbsolute hqr]
  | false =>
    have hqr : (q.join r).isAbsolute = false := by rw [isAbsolute_join h, hq]
    rw [join_of_relative h, join_of_relative hqr, joint_join hq, join_of_relative hq,
      join_of_relative h]
    simp only [List.append_assoc]

end Path

theorem CompilationUnit.slash_not_mem_nameOf (p : Path) :
    '/' ∉ (CompilationUnit.nameOf p).toList :=
  Utf8.slash_not_mem_lossy (Path.slash_not_mem_fileStem p)

namespace Token

/-- The part of a temporary's name before its extension. -/
def stem (t : Token) (name : String) : Bytes :=
  Utf8.encode "ac" ++ t.bytes ++ Utf8.encode "-" ++ Utf8.encode name

theorem slash_not_mem_stem (t : Token) {name : String} (h : '/' ∉ name.toList) :
    Path.slash ∉ t.stem name := by
  have ht : Path.slash ∉ t.bytes := fun hm => by
    have := t.isAlphanumeric_of_mem _ hm
    exact absurd this (by decide)
  simp only [stem, List.mem_append, not_or]
  exact ⟨⟨⟨by decide, ht⟩, by decide⟩, Utf8.slash_not_mem_encode h⟩

/-- A temporary is a relative path below its directory, wherever that is. -/
theorem absolute_path (t : Token) (fs : FileSystem) (dir : Path) (name extension : String) :
    fs.absolute (t.path dir name extension) = t.path (fs.absolute dir) name extension :=
  (Path.join_join _ dir rfl).symm

end Token

theorem Format.slash_not_mem_extension (f : Format) : '/' ∉ f.extension.toList := by
  cases f <;> decide

/-- The form of a temporary is recognized as the one it was made for, whatever its name and
wherever it lies. -/
theorem Format.ofPath?_temporary (t : Token) (dir : Path) {name : String}
    (hn : '/' ∉ name.toList) (f : Format) :
    Format.ofPath? (t.path dir name f.extension) = some f := by
  obtain ⟨extension, he, hslash, hdot, hne, hf⟩ : ∃ extension,
      Utf8.encode f.extension = Path.dot :: extension ∧ Path.slash ∉ extension ∧
      Path.dot ∉ extension ∧ extension ≠ [] ∧ Format.ofExtension? extension = some f := by
    cases f
    · exact ⟨Utf8.encode "cl", by decide⟩
    · exact ⟨Utf8.encode "cc", by decide⟩
    · exact ⟨Utf8.encode "ll", by decide⟩
    · exact ⟨Utf8.encode "bc", by decide⟩
  have hname : t.fileName name f.extension = t.stem name ++ Path.dot :: extension := by
    rw [Token.fileName, he, Token.stem]
  have habs : Path.isAbsolute ⟨t.fileName name f.extension⟩ = false := rfl
  obtain ⟨before, hp, hb⟩ := dir.exists_join_eq habs
  have hstem : t.stem name ≠ [] := List.cons_ne_nil _ _
  rw [Token.path, hp, Format.ofPath?, hname,
    Path.extension_append hb (t.slash_not_mem_stem hn) hstem hslash hne hdot]
  exact hf

end CompilerDriver
