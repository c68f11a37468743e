import CompilerDriver.Utf8

/-! File paths as byte strings. A path keeps every byte it was given; its pieces, file name,
stem and extension are read off on demand, and only its display is lossy. -/
namespace CompilerDriver

structure Path where
  bytes : Bytes
  deriving DecidableEq, Repr, Inhabited

namespace Path

def slash : UInt8 := 0x2F

def dot : UInt8 := 0x2E

def ofString (s : String) : Path := ⟨Utf8.encode s⟩

def display (p : Path) : String := Utf8.lossy p.bytes

/-- The path as text, when its bytes are well-formed. -/
def text? (p : Path) : Option String := Utf8.decode? p.bytes

def isEmpty (p : Path) : Bool := p.bytes.isEmpty

def isAbsolute (p : Path) : Bool := p.bytes.head? == some slash

/-- Whether the path ends in a separator, so that it can only name a directory. -/
def endsInSlash (p : Path) : Bool := p.bytes.getLast? == some slash

/-- The non-empty parts between separators, `.` and `..` included. -/
def pieces (p : Path) : List Bytes := (p.bytes.splitOn slash).filter (· ≠ [])

/-- The last part that names something, unless that is the parent directory. -/
def fileName (p : Path) : Option Bytes :=
  match (p.pieces.filter (· ≠ [dot])).getLast? with
  | some name => if name = [dot, dot] then none else some name
  | none => none

/-- The text around the last dot. -/
def splitLastDot : Bytes → Option (Bytes × Bytes)
  | [] => none
  | b :: rest =>
    match splitLastDot rest with
    | some (before, after) => some (b :: before, after)
    | none => if b = dot then some ([], rest) else none

/-- Stem and extension of a file name. A dot that opens the name starts no extension. -/
def splitName (name : Bytes) : Bytes × Option Bytes :=
  match splitLastDot name with
  | some ([], _) => (name, none)
  | some (stem, extension) => (stem, some extension)
  | none => (name, none)

def fileStem (p : Path) : Option Bytes := p.fileName.map fun name => (splitName name).1

def extension (p : Path) : Option Bytes := p.fileName.bind fun name => (splitName name).2

/-- `q` below `p`: an absolute `q` stands alone, and a separator is added where `p` lacks one. -/
def join (p q : Path) : Path :=
  if q.isAbsolute then q
  else if p.isEmpty || p.endsInSlash then ⟨p.bytes ++ q.bytes⟩
  else ⟨p.bytes ++ slash :: q.bytes⟩

/-- `file` named by a string, below `p`. -/
def child (p : Path) (file : String) : Path := p.join (ofString file)

theorem join_of_isAbsolute {p q : Path} (h : q.isAbsolute = true) : p.join q = q := by
  simp [join, h]

theorem splitLastDot_eq_none_iff {name : Bytes} : splitLastDot name = none ↔ dot ∉ name := by
  induction name with
  | nil => simp [splitLastDot]
  | cons b rest ih =>
    rcases h : splitLastDot rest with _ | ⟨before, after⟩
    · simp only [splitLastDot, h, List.mem_cons, not_or, ih.mp h, not_false_eq_true, and_true]
      by_cases hb : b = dot
      · simp [hb]
      · simp [hb, Ne.symm hb]
    · have hm : dot ∈ rest := by
        rcases Decidable.em (dot ∈ rest) with hm | hm
        · exact hm
        · rw [ih.mpr hm] at h; cases h
      simp [splitLastDot, h, hm]

theorem splitLastDot_eq_some {name before after : Bytes}
    (h : splitLastDot name = some (before, after)) :
    name = before ++ dot :: after ∧ dot ∉ after := by
  induction name generalizing before with
  | nil => simp [splitLastDot] at h
  | cons b rest ih =>
    rcases hr : splitLastDot rest with _ | ⟨before', after'⟩
    · simp only [splitLastDot, hr] at h
      split at h
      · next hb =>
        cases h
        exact ⟨by simp [hb], splitLastDot_eq_none_iff.mp hr⟩
      · cases h
    · simp only [splitLastDot, hr, Option.some.injEq, Prod.mk.injEq] at h
      obtain ⟨rfl, rfl⟩ := h
      obtain ⟨he, hn⟩ := ih hr
      exact ⟨by rw [he]; rfl, hn⟩

/-- The split is at the last dot, whatever stands before it. -/
theorem splitLastDot_append {before after : Bytes} (h : dot ∉ after) :
    splitLastDot (before ++ dot :: after) = some (before, after) := by
  induction before with
  | nil => simp [splitLastDot, splitLastDot_eq_none_iff.mpr h]
  | cons b before ih => simp [splitLastDot, ih]

end Path

end CompilerDriver
