import CompilerDriver.Shell.Text

/-! Patterns, as they choose file names, cases, and the parts of a value that are cut off. In a
pattern a quoted character stands for itself. -/
namespace CompilerDriver.Shell

/-- A character of an expanded text. -/
structure Glyph where
  char : Char
  quoted : Bool
  deriving DecidableEq, Repr

namespace Glyph

/-- Whether this is the character, with whatever meaning it has. -/
def isPlain (g : Glyph) (c : Char) : Bool := !g.quoted && g.char == c

def textOf (gs : List Glyph) : Bytes := bytesOfChars (gs.map Glyph.char)

end Glyph

/-- A set of characters between brackets. -/
inductive PatternSet where
  | char (c : Char)
  | range (first last : Char)
  | named (name : String)
  deriving DecidableEq, Repr

namespace PatternSet

def isPrinted (c : Char) : Bool := '!' ≤ c && c ≤ '~'

def contains (c : Char) : PatternSet → Bool
  | char d => c == d
  | range first last => first ≤ c && c ≤ last
  | named name =>
    match name with
    | "alnum" => c.isAlphanum
    | "alpha" => c.isAlpha
    | "blank" => isBlank c
    | "cntrl" => c < ' ' || c == '\x7f'
    | "digit" => c.isDigit
    | "graph" => isPrinted c
    | "lower" => c.isLower
    | "print" => isPrinted c || c == ' '
    | "punct" => isPrinted c && !c.isAlphanum
    | "space" => isSpace c
    | "upper" => c.isUpper
    | "xdigit" => digitValue c < 16
    | _ => false

end PatternSet

inductive PatternItem where
  | char (c : Char)
  | any
  | one
  | oneOf (negated : Bool) (sets : List PatternSet)
  deriving DecidableEq, Repr

abbrev Pattern := List PatternItem

namespace Pattern

/-- The rest of a bracket, once it is not the closing one that comes next. -/
def bracket? : Nat → List Glyph → List PatternSet → Option (List PatternSet × List Glyph)
  | 0, _, _ => none
  | _, [], _ => none
  | fuel + 1, g :: rest, sets =>
    let goOn (set : PatternSet) (rest : List Glyph) : Option (List PatternSet × List Glyph) :=
      match rest with
      | h :: after =>
        if h.isPlain ']' then some (sets ++ [set], after) else bracket? fuel rest (sets ++ [set])
      | [] => none
    let single : Option (List PatternSet × List Glyph) :=
      match rest with
      | dash :: last :: after =>
        if dash.isPlain '-' && !last.isPlain ']' then goOn (.range g.char last.char) after
        else goOn (.char g.char) rest
      | _ => goOn (.char g.char) rest
    match rest with
    | colon :: more =>
      if g.isPlain '[' && colon.isPlain ':' then
        let name := more.takeWhile fun h => h.char.isAlpha
        match more.dropWhile fun h => h.char.isAlpha with
        | colon :: close :: after =>
          if colon.isPlain ':' && close.isPlain ']' then
            goOn (.named (String.ofList (name.map Glyph.char))) after
          else single
        | _ => single
      else single
    | [] => single

/-- The pattern that an expanded text is. A bracket that is not closed stands for itself. -/
def ofGlyphsWithin : Nat → List Glyph → Pattern
  | 0, _ => []
  | _, [] => []
  | fuel + 1, g :: rest =>
    if g.isPlain '*' then .any :: ofGlyphsWithin fuel rest
    else if g.isPlain '?' then .one :: ofGlyphsWithin fuel rest
    else if g.isPlain '\\' then
      match rest with
      | h :: rest => .char h.char :: ofGlyphsWithin fuel rest
      | [] => [.char '\\']
    else if g.isPlain '[' then
      let (negated, inside) : Bool × List Glyph :=
        match rest with
        | h :: more => if h.isPlain '!' then (true, more) else (false, rest)
        | [] => (false, [])
      match bracket? (rest.length + 1) inside [] with
      | some (sets, after) => .oneOf negated sets :: ofGlyphsWithin fuel after
      | none => .char '[' :: ofGlyphsWithin fuel rest
    else .char g.char :: ofGlyphsWithin fuel rest

def ofGlyphs (gs : List Glyph) : Pattern := ofGlyphsWithin (gs.length + 1) gs

/-- Whether a pattern matches the whole of a text. -/
def isMatch : Pattern → List Char → Bool
  | [], cs => cs.isEmpty
  | .any :: rest, cs => (List.range (cs.length + 1)).any fun n => isMatch rest (cs.drop n)
  | _ :: _, [] => false
  | .char c :: rest, d :: ds => c == d && isMatch rest ds
  | .one :: rest, _ :: ds => isMatch rest ds
  | .oneOf negated sets :: rest, d :: ds =>
    (sets.any (PatternSet.contains d)) != negated && isMatch rest ds

/-- Whether a text has a character that makes a pattern of it. -/
def isActive (gs : List Glyph) : Bool :=
  gs.any fun g => g.isPlain '*' || g.isPlain '?' || g.isPlain '['

/-- Cuts off the shortest or the longest match at the start or at the end of a text. -/
def trim (p : Pattern) (fromEnd longest : Bool) (cs : List Char) : List Char :=
  let lengths := List.range (cs.length + 1)
  let lengths := if longest then lengths.reverse else lengths
  let split (n : Nat) : List Char × List Char :=
    if fromEnd then (cs.drop (cs.length - n), cs.take (cs.length - n)) else (cs.take n, cs.drop n)
  match lengths.find? fun n => p.isMatch (split n).1 with
  | some n => (split n).2
  | none => cs

end Pattern

end CompilerDriver.Shell
