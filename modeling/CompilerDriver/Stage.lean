/-! The two pipelines, the six stages, and tables with one entry per stage. -/
namespace CompilerDriver

/-- Device code and host code are processed side by side and never mix. -/
inductive Pipeline where
  | device
  | host
  deriving DecidableEq, Repr

namespace Pipeline

/-- The order in which every stage visits the pipelines. -/
def all : List Pipeline := [.device, .host]

def name : Pipeline → String
  | .device => "bsp"
  | .host => "host"

theorem mem_all (p : Pipeline) : p ∈ all := by cases p <;> simp [all]

end Pipeline

inductive Stage where
  | compile
  | analyze
  | transform
  | link
  | assemble
  | disassemble
  deriving DecidableEq, Repr

namespace Stage

/-- The stages in the order they run. -/
def all : List Stage := [.compile, .analyze, .transform, .link, .assemble, .disassemble]

def name : Stage → String
  | .compile => "compile"
  | .analyze => "analyze"
  | .transform => "transform"
  | .link => "link"
  | .assemble => "assemble"
  | .disassemble => "disassemble"

def index : Stage → Nat
  | .compile => 0
  | .analyze => 1
  | .transform => 2
  | .link => 3
  | .assemble => 4
  | .disassemble => 5

theorem mem_all (s : Stage) : s ∈ all := by cases s <;> simp [all]

theorem nodup_all : all.Nodup := by simp [all]

end Stage

/-- One value for each stage. -/
structure PerStage (α : Type) where
  compile : α
  analyze : α
  transform : α
  link : α
  assemble : α
  disassemble : α
  deriving DecidableEq, Repr

namespace PerStage

variable {α : Type}

def replicate (a : α) : PerStage α := ⟨a, a, a, a, a, a⟩

def get (t : PerStage α) : Stage → α
  | .compile => t.compile
  | .analyze => t.analyze
  | .transform => t.transform
  | .link => t.link
  | .assemble => t.assemble
  | .disassemble => t.disassemble

def set (t : PerStage α) (s : Stage) (a : α) : PerStage α :=
  match s with
  | .compile => { t with compile := a }
  | .analyze => { t with analyze := a }
  | .transform => { t with transform := a }
  | .link => { t with link := a }
  | .assemble => { t with assemble := a }
  | .disassemble => { t with disassemble := a }

def toList (t : PerStage α) : List α := Stage.all.map t.get

@[simp] theorem get_replicate (a : α) (s : Stage) : (replicate a).get s = a := by
  cases s <;> rfl

@[simp] theorem get_set_self (t : PerStage α) (s : Stage) (a : α) : (t.set s a).get s = a := by
  cases s <;> rfl

theorem get_set_of_ne (t : PerStage α) {s r : Stage} (a : α) (h : r ≠ s) :
    (t.set s a).get r = t.get r := by
  cases s <;> cases r <;> first | rfl | exact absurd rfl h

theorem ext_get {t u : PerStage α} (h : ∀ s, t.get s = u.get s) : t = u := by
  cases t; cases u
  have := h .compile; have := h .analyze; have := h .transform
  have := h .link; have := h .assemble; have := h .disassemble
  simp_all [get]

end PerStage

end CompilerDriver
