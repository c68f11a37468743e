import CompilerDriver.Options.Parse
import Mathlib.Data.List.TakeWhile

/-!
# Options as they are written

An option is written under one of its labels: alone, with a value attached by an
equals sign, or with a group of values after it. A command line of such options is
read back as it was written. An attached value may hold anything, hyphens and equals
signs included, and a group ends where the next label begins.
-/
namespace CompilerDriver

/-- One spelling of an option. -/
inductive Label where
  | name (text : String)
  | letter (c : Char)
  deriving DecidableEq, Repr

/-- What is written with a label. -/
inductive Form where
  | alone
  /-- A value in the same word, after an equals sign. -/
  | attached (value : Bytes)
  /-- Values in words of their own. -/
  | spaced (values : List Bytes)
  deriving DecidableEq, Repr

/-- An option on a command line, with everything that belongs to it. -/
structure Phrase where
  option : Opt
  label : Label
  form : Form
  deriving DecidableEq, Repr

namespace Label

/-- The option is declared under the label, be it an alias. -/
def Spells : Label → Opt → Prop
  | name text, o => text ∈ o.names
  | letter c, o => o.letter? = some c

instance (l : Label) (o : Opt) : Decidable (l.Spells o) :=
  match l with
  | name text => inferInstanceAs (Decidable (text ∈ o.names))
  | letter c => inferInstanceAs (Decidable (o.letter? = some c))

def word : Label → Bytes
  | name text => Spelling.hyphen :: Spelling.hyphen :: Utf8.encode text
  | letter c => [Spelling.hyphen, c.toNat.toUInt8]

end Label

namespace Form

def values : Form → List Bytes
  | alone => []
  | attached value => [value]
  | spaced values => values

/-- The option may be written so. In a group of values, none begins like an option. -/
def Suits (o : Opt) : Form → Prop
  | alone => o.shape = .switch ∨ o.shape = .counter
  | attached _ => o.takesValue = true
  | spaced values => (∃ kind, o.shape = .several kind) ∧ values ≠ [] ∧
      ∀ v ∈ values, v.head? ≠ some Spelling.hyphen

end Form

namespace Phrase

def words (p : Phrase) : List Bytes :=
  match p.form with
  | .alone => [p.label.word]
  | .attached value => [p.label.word ++ Spelling.equals :: value]
  | .spaced values => p.label.word :: values

def occurrence (p : Phrase) : Occurrence := ⟨p.option, p.form.values⟩

/-- The phrase is one of a program that has these options. -/
structure IsProper (available : List Opt) (p : Phrase) : Prop where
  available : p.option ∈ available
  label : p.label.Spells p.option
  form : p.form.Suits p.option

end Phrase

namespace Opt

theorem mem_all (o : Opt) : o ∈ Opt.all := by cases o <;> decide

/-- The first option that passes the test is the only one. -/
theorem find?_eq_some {available : List Opt} {o : Opt} {f : Opt → Bool} (ho : o ∈ available)
    (hf : f o = true) (unique : ∀ x, f x = true → x = o) : available.find? f = some o := by
  cases h : available.find? f with
  | none => exact absurd hf (List.find?_eq_none.mp h o ho)
  | some x => rw [unique x (List.find?_some h)]

theorem ofName?_all : ∀ o ∈ Opt.all, ∀ name ∈ o.names,
    Opt.ofName? Opt.all (Utf8.encode name) = some o := by decide +kernel

theorem ofLetter?_all {o : Opt} {c : Char} (h : o.letter? = some c) :
    Opt.ofLetter? Opt.all c.toNat.toUInt8 = some o := by
  cases o <;> cases h <;> decide

/-- No two options share a name, so one is found wherever it is available. -/
theorem ofName?_eq_some {available : List Opt} {o : Opt} {name : String} (ho : o ∈ available)
    (hn : name ∈ o.names) : Opt.ofName? available (Utf8.encode name) = some o := by
  refine find?_eq_some ho (List.any_eq_true.mpr ⟨name, hn, beq_self_eq_true _⟩) fun x hx => ?_
  obtain ⟨other, hm, he⟩ := List.any_eq_true.mp hx
  have hx := ofName?_all x x.mem_all other hm
  rw [eq_of_beq he, ofName?_all o o.mem_all name hn] at hx
  exact (Option.some.inj hx).symm

theorem ofLetter?_eq_some {available : List Opt} {o : Opt} {c : Char} (ho : o ∈ available)
    (hc : o.letter? = some c) : Opt.ofLetter? available c.toNat.toUInt8 = some o := by
  refine find?_eq_some ho (by simp [hc]) fun x hx => ?_
  obtain ⟨d, hd, he⟩ := Option.map_eq_some_iff.mp (eq_of_beq hx)
  have hx := ofLetter?_all hd
  rw [he, ofLetter?_all hc] at hx
  exact (Option.some.inj hx).symm

theorem not_mem_of_mem_names : ∀ o ∈ Opt.all, ∀ name ∈ o.names,
    Utf8.encode name ≠ [] ∧ Spelling.equals ∉ Utf8.encode name := by decide +kernel

theorem ne_hyphen_of_letter? {o : Opt} {c : Char} (h : o.letter? = some c) :
    c.toNat.toUInt8 ≠ Spelling.hyphen := by
  cases o <;> cases h <;> decide

end Opt

namespace Spelling

/-- A word after two hyphens is split at its first equals sign. -/
theorem ofWord_long {rest : Bytes} (h : rest ≠ []) :
    ofWord (hyphen :: hyphen :: rest) =
      match rest.dropWhile (· ≠ equals) with
      | _ :: value => .long (rest.takeWhile (· ≠ equals)) (some value)
      | [] => .long rest none := by
  cases rest with
  | nil => exact absurd rfl h
  | cons b rest => rfl

theorem ofWord_name {name : Bytes} (hn : name ≠ []) (he : equals ∉ name) :
    ofWord (hyphen :: hyphen :: name) = .long name none := by
  have hd : name.dropWhile (· ≠ equals) = [] :=
    List.dropWhile_eq_nil_iff.mpr fun b hb => decide_eq_true fun h => he (h ▸ hb)
  rw [ofWord_long hn, hd]

theorem ofWord_name_attached {name : Bytes} (he : equals ∉ name) (value : Bytes) :
    ofWord (hyphen :: hyphen :: (name ++ equals :: value)) = .long name (some value) := by
  have hall : ∀ b ∈ name, decide (b ≠ equals) = true :=
    fun b hb => decide_eq_true fun h => he (h ▸ hb)
  rw [ofWord_long (by simp), List.dropWhile_append_of_pos hall, List.takeWhile_append_of_pos hall]
  simp

theorem ofWord_letters {b : UInt8} (hb : b ≠ hyphen) (rest : Bytes) :
    ofWord (hyphen :: b :: rest) = .letters (b :: rest) := by
  unfold ofWord
  split
  · next h => exact absurd (List.cons.inj (List.cons.inj h).2).1 hb
  · next h => exact absurd (List.cons.inj (List.cons.inj h).2).1 hb
  · next h =>
    obtain ⟨rfl, rfl⟩ := List.cons.inj (List.cons.inj h).2
    rfl
  · next h => exact absurd rfl (h b rest)

theorem ofWord_plain {w : Bytes} (h : w.head? ≠ some hyphen) : ofWord w = .plain w := by
  unfold ofWord
  split
  · exact absurd rfl h
  · exact absurd rfl h
  · exact absurd rfl h
  · rfl

end Spelling

namespace ParseState

theorem forM_check_eq_ok {kind : ValueKind} {o : Opt} {values : List Bytes}
    (h : ∀ v ∈ values, kind.check o v = .ok ()) : values.forM (kind.check o) = .ok () := by
  induction values with
  | nil => rfl
  | cons v values ih =>
    obtain ⟨hv, hrest⟩ := List.forall_mem_cons.mp h
    rw [List.forM_eq_forM, List.forM_cons, hv]
    exact ih hrest

/-- An occurrence is added if nothing speaks against it. -/
theorem accept_eq {found : List Occurrence} {o : Occurrence}
    (hv : o.option.takesValue = true → o.values ≠ []) (hi : o.option.shape ≠ .inquiry)
    (hr : o.option.isRepeatable = false → ∀ f ∈ found, f.option ≠ o.option)
    (hk : ∀ kind, o.option.value? = some kind →
      ∀ v ∈ o.values, kind.check o.option v = .ok ()) :
    accept found o = .ok (found ++ [o]) := by
  have hmissing : ¬(o.option.takesValue && o.values.isEmpty) = true := by
    rw [Bool.and_eq_true, List.isEmpty_iff]
    exact fun h => hv h.1 h.2
  have hhelp : o.option ≠ .help := fun h => hi (by rw [h]; rfl)
  have hversion : o.option ≠ .version := fun h => hi (by rw [h]; rfl)
  have hagain : ¬(!o.option.isRepeatable && found.any (·.option = o.option)) = true := by
    rw [Bool.and_eq_true, Bool.not_eq_true', List.any_eq_true]
    rintro ⟨h, f, hf, he⟩
    exact hr h f hf (of_decide_eq_true he)
  unfold accept
  rw [if_neg hmissing, if_neg hhelp, if_neg hversion, if_neg hagain]
  cases h : o.option.value? with
  | none => rfl
  | some kind =>
    dsimp only
    rw [forM_check_eq_ok (hk kind h)]
    rfl

variable {s : ParseState} {found : List Occurrence}

theorem complete_eq (hs : s.settle = .ok found) {o : Occurrence}
    (h : accept found o = .ok (found ++ [o])) : s.complete o = .ok { found := found ++ [o] } := by
  rw [complete, hs]
  change accept found o >>= _ = _
  rw [h]
  rfl

theorem await_eq (hs : s.settle = .ok found) (o : Opt) :
    s.await o = .ok { found := found, pending := some ⟨o, []⟩ } := by
  rw [await, hs]
  rfl

end ParseState

section Reading

variable {available : List Opt} {o : Opt} {l : Label} {w : Bytes} {s : ParseState}

theorem parseWords_of_long {name : Bytes} {attached : Option Bytes}
    (h : Spelling.ofWord w = .long name attached) (rest : List Bytes) :
    parseWords available (w :: rest) s =
      (s.long available name attached).bind (parseWords available rest) := by
  rw [parseWords.eq_def]
  simp only [h]
  rfl

theorem parseWords_of_letters {ls : Bytes} (h : Spelling.ofWord w = .letters ls)
    (rest : List Bytes) :
    parseWords available (w :: rest) s =
      (s.letters available ls).bind (parseWords available rest) := by
  rw [parseWords.eq_def]
  simp only [h]
  rfl

theorem parseWords_of_plain {word : Bytes} (h : Spelling.ofWord w = .plain word)
    (rest : List Bytes) :
    parseWords available (w :: rest) s = (s.plain word).bind (parseWords available rest) := by
  rw [parseWords.eq_def]
  simp only [h]
  rfl

/-- The word of an option that takes nothing. -/
theorem parseWords_alone (ho : o ∈ available) (hl : l.Spells o) (ht : o.takesValue = false)
    (rest : List Bytes) :
    parseWords available (l.word :: rest) s =
      (s.complete ⟨o, []⟩).bind (parseWords available rest) := by
  cases l with
  | name text =>
    obtain ⟨hne, heq⟩ := Opt.not_mem_of_mem_names o o.mem_all text hl
    rw [Label.word, parseWords_of_long (Spelling.ofWord_name hne heq)]
    simp only [ParseState.long, Opt.ofName?_eq_some ho hl, ht]
    rfl
  | letter c =>
    have hc := Opt.ne_hyphen_of_letter? hl
    rw [Label.word, parseWords_of_letters (Spelling.ofWord_letters hc [])]
    simp only [ParseState.letters, Opt.ofLetter?_eq_some ho hl, ht]
    cases s.complete ⟨o, []⟩ <;> rfl

/-- The word of an option whose values are still to come. -/
theorem parseWords_spaced (ho : o ∈ available) (hl : l.Spells o) (ht : o.takesValue = true)
    (rest : List Bytes) :
    parseWords available (l.word :: rest) s = (s.await o).bind (parseWords available rest) := by
  cases l with
  | name text =>
    obtain ⟨hne, heq⟩ := Opt.not_mem_of_mem_names o o.mem_all text hl
    rw [Label.word, parseWords_of_long (Spelling.ofWord_name hne heq)]
    simp only [ParseState.long, Opt.ofName?_eq_some ho hl, ht]
    rfl
  | letter c =>
    have hc := Opt.ne_hyphen_of_letter? hl
    rw [Label.word, parseWords_of_letters (Spelling.ofWord_letters hc [])]
    simp only [ParseState.letters, Opt.ofLetter?_eq_some ho hl, ht]
    rfl

/-- The word of an option with its value, which is taken whole. -/
theorem parseWords_attached (ho : o ∈ available) (hl : l.Spells o) (ht : o.takesValue = true)
    (value : Bytes) (rest : List Bytes) :
    parseWords available ((l.word ++ Spelling.equals :: value) :: rest) s =
      (s.complete ⟨o, [value]⟩).bind (parseWords available rest) := by
  cases l with
  | name text =>
    obtain ⟨-, heq⟩ := Opt.not_mem_of_mem_names o o.mem_all text hl
    rw [Label.word, List.cons_append, List.cons_append,
      parseWords_of_long (Spelling.ofWord_name_attached heq value)]
    simp only [ParseState.long, Opt.ofName?_eq_some ho hl, ht]
    rfl
  | letter c =>
    have hc := Opt.ne_hyphen_of_letter? hl
    rw [Label.word, List.cons_append, List.singleton_append,
      parseWords_of_letters (Spelling.ofWord_letters hc _)]
    simp only [ParseState.letters, Opt.ofLetter?_eq_some ho hl, ht]
    rfl

/-- Words that are no options go to the option that waits. -/
theorem parseWords_values {kind : ValueKind} (hk : o.shape = .several kind) {values : List Bytes}
    (hv : ∀ v ∈ values, v.head? ≠ some Spelling.hyphen) (rest : List Bytes)
    (found : List Occurrence) (before : List Bytes) :
    parseWords available (values ++ rest) { found := found, pending := some ⟨o, before⟩ } =
      parseWords available rest { found := found, pending := some ⟨o, before ++ values⟩ } := by
  induction values generalizing before with
  | nil => rw [List.nil_append, List.append_nil]
  | cons v values ih =>
    obtain ⟨hhead, hrest⟩ := List.forall_mem_cons.mp hv
    have hmore : o.acceptsMore before.length = true := by rw [Opt.acceptsMore, hk]
    rw [List.cons_append, parseWords_of_plain (Spelling.ofWord_plain hhead)]
    simp only [ParseState.plain, hmore]
    have hstep := ih hrest (before ++ [v])
    rw [List.append_assoc, List.singleton_append] at hstep
    exact hstep

end Reading

namespace Form

variable {o : Opt} {form : Form}

theorem Suits.takesValue_eq_false (h : alone.Suits o) : o.takesValue = false := by
  rw [Opt.takesValue, Opt.value?]
  rcases h with h | h <;> rw [h] <;> rfl

theorem Suits.takesValue_eq_true {values : List Bytes} (h : (spaced values).Suits o) :
    o.takesValue = true := by
  obtain ⟨⟨kind, hk⟩, -⟩ := h
  rw [Opt.takesValue, Opt.value?, hk]
  rfl

theorem Suits.shape_ne_inquiry (h : form.Suits o) : o.shape ≠ .inquiry := by
  intro hi
  cases form with
  | alone => rcases h with h | h <;> rw [hi] at h <;> cases h
  | attached value =>
    have ht : o.takesValue = true := h
    rw [Opt.takesValue, Opt.value?, hi] at ht
    cases ht
  | spaced values =>
    obtain ⟨⟨kind, hk⟩, -⟩ := h
    rw [hi] at hk
    cases hk

theorem Suits.values_ne_nil (h : form.Suits o) (ht : o.takesValue = true) : form.values ≠ [] := by
  cases form with
  | alone => exact absurd ht (by rw [Suits.takesValue_eq_false h]; decide)
  | attached value => exact List.cons_ne_nil _ _
  | spaced values => exact h.2.1

end Form

namespace Phrase

variable {available : List Opt} {p : Phrase} {s : ParseState} {found : List Occurrence}

/-- One phrase is read as one occurrence, whatever was read before it. A group leaves it waiting,
and the next phrase or the end of the line settles it. -/
theorem IsProper.exists_parseWords_eq (h : p.IsProper available) (hs : s.settle = .ok found)
    (ha : ParseState.accept found p.occurrence = .ok (found ++ [p.occurrence]))
    (rest : List Bytes) :
    ∃ s' : ParseState, s'.settle = .ok (found ++ [p.occurrence]) ∧
      parseWords available (p.words ++ rest) s = parseWords available rest s' := by
  obtain ⟨ho, hl, hf⟩ := h
  obtain ⟨o, l, form⟩ := p
  cases form with
  | alone =>
    refine ⟨{ found := found ++ [⟨o, []⟩] }, rfl, ?_⟩
    refine (parseWords_alone ho hl hf.takesValue_eq_false rest).trans ?_
    rw [ParseState.complete_eq hs (o := ⟨o, []⟩) ha]
    rfl
  | attached value =>
    refine ⟨{ found := found ++ [⟨o, [value]⟩] }, rfl, ?_⟩
    refine (parseWords_attached ho hl hf value rest).trans ?_
    rw [ParseState.complete_eq hs (o := ⟨o, [value]⟩) ha]
    rfl
  | spaced values =>
    obtain ⟨⟨kind, hk⟩, -, hv⟩ := id hf
    refine ⟨{ found := found, pending := some ⟨o, values⟩ }, ha, ?_⟩
    refine (parseWords_spaced ho hl hf.takesValue_eq_true (values ++ rest)).trans ?_
    rw [ParseState.await_eq hs]
    exact parseWords_values hk hv rest found []

/-- Phrases are read as their occurrences, in order. -/
theorem parseWords_flatMap_words {phrases : List Phrase}
    (hp : ∀ p ∈ phrases, p.IsProper available)
    (hk : ∀ p ∈ phrases, ∀ kind, p.option.value? = some kind →
      ∀ v ∈ p.form.values, kind.check p.option v = .ok ())
    (hr : ∀ o, o.isRepeatable = false →
      (found ++ phrases.map occurrence).countP (·.option = o) ≤ 1)
    (hs : s.settle = .ok found) :
    parseWords available (phrases.flatMap words) s = .ok (found ++ phrases.map occurrence) := by
  induction phrases generalizing s found with
  | nil => rw [List.flatMap_nil, List.map_nil, List.append_nil, parseWords, hs]
  | cons p phrases ih =>
    obtain ⟨hproper, hp⟩ := List.forall_mem_cons.mp hp
    obtain ⟨hkind, hk⟩ := List.forall_mem_cons.mp hk
    have hfresh (h : p.option.isRepeatable = false) : ∀ f ∈ found, f.option ≠ p.option := by
      intro f hf he
      have hcount := hr p.option h
      have hpos : 0 < found.countP (·.option = p.option) :=
        List.countP_pos_iff.mpr ⟨f, hf, decide_eq_true he⟩
      rw [List.countP_append, List.map_cons, List.countP_cons_of_pos (by simp [occurrence])]
        at hcount
      omega
    have haccept : ParseState.accept found p.occurrence = .ok (found ++ [p.occurrence]) :=
      ParseState.accept_eq hproper.form.values_ne_nil hproper.form.shape_ne_inquiry hfresh hkind
    obtain ⟨s', hs', hread⟩ := hproper.exists_parseWords_eq hs haccept (phrases.flatMap words)
    rw [List.map_cons, List.append_cons] at hr ⊢
    rw [List.flatMap_cons, hread]
    exact ih hp hk hr hs'

end Phrase

end CompilerDriver
