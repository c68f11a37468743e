import CompilerDriver.FileSystem

/-! Names for temporary files. A name carries eight random characters, so that two files for
the same unit differ; a supply fixes in advance which characters are drawn, and which attempts
to create a file the system refuses. -/
namespace CompilerDriver

def isAlphanumeric (b : UInt8) : Bool :=
  (0x30 ≤ b && b ≤ 0x39) || (0x41 ≤ b && b ≤ 0x5A) || (0x61 ≤ b && b ≤ 0x7A)

/-- The random part of a temporary name. -/
structure Token where
  bytes : Bytes
  length_bytes : bytes.length = 8 := by decide
  isAlphanumeric_of_mem : ∀ b ∈ bytes, isAlphanumeric b = true := by decide
  deriving DecidableEq

namespace Token

/-- The alphanumeric characters in a row: digits, capitals, small letters. -/
def character (i : Nat) : UInt8 :=
  if i < 10 then UInt8.ofNat (0x30 + i)
  else if i < 36 then UInt8.ofNat (0x41 + (i - 10))
  else UInt8.ofNat (0x61 + (i - 36))

theorem isAlphanumeric_character : ∀ i < 62, isAlphanumeric (character i) = true := by decide

/-- How many tokens there are. -/
def count : Nat := Nat.pow 62 8

/-- A number in eight characters, the first of them the most significant. -/
def ofNat (n : Nat) : Token where
  bytes := (List.range 8).reverse.map fun i => character (n / Nat.pow 62 i % 62)
  length_bytes := by simp
  isAlphanumeric_of_mem := by
    intro b h
    obtain ⟨i, _, rfl⟩ := List.mem_map.mp h
    exact isAlphanumeric_character _ (Nat.mod_lt _ (by decide))

end Token

/-- The tokens that will be drawn, and the attempts that fail for reasons outside the file
system, such as a full disk. -/
structure NameSupply where
  token : Nat → Token
  fault : Nat → Option SystemError := fun _ => none
  drawn : Nat := 0

/-- `ac<token>-<name><extension>`. -/
def Token.fileName (t : Token) (name extension : String) : Bytes :=
  Utf8.encode "ac" ++ t.bytes ++ Utf8.encode "-" ++ Utf8.encode name ++ Utf8.encode extension

/-- The path of a temporary in a directory. -/
def Token.path (t : Token) (dir : Path) (name extension : String) : Path :=
  dir.join ⟨t.fileName name extension⟩

namespace NameSupply

/-- Consecutive numbers from a first one on. -/
def ofSeed (seed : Nat) : NameSupply := { token := fun n => Token.ofNat (seed + n) }

/-- Draws before the supply counts as exhausted. -/
def attempts : Nat := 65536

def exhausted : SystemError := .custom .alreadyExists "too many temporary files exist"

/-- One attempt to create the path drawn next. -/
def attempt (names : NameSupply) (fs : FileSystem) (path : Path) :
    Except SystemError FileSystem :=
  match names.fault names.drawn with
  | some error => .error error
  | none => fs.createNew path

/-- An error of the system, with the path that met it. -/
def located (error : SystemError) (path : Path) : SystemError :=
  .custom error.kind (error.text ++ " at path \"" ++ path.display ++ "\"")

/-- Draws names until one is free. The file is created empty, so that nobody else takes it. -/
def create (dir : Path) (name extension : String) :
    Nat → NameSupply → FileSystem → Except SystemError (Path × FileSystem) × NameSupply
  | 0, names, _ => (.error (located exhausted dir), names)
  | tries + 1, names, fs =>
    let path := fs.absolute ((names.token names.drawn).path dir name extension)
    let rest := { names with drawn := names.drawn + 1 }
    match names.attempt fs path with
    | .ok fs' => (.ok (path, fs'), rest)
    | .error error =>
      if error.kind = .alreadyExists then create dir name extension tries rest fs
      else (.error (located error path), rest)

end NameSupply

end CompilerDriver
