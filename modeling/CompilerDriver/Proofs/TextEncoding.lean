import CompilerDriver.Utf8
import Mathlib.Algebra.Group.Nat.Defs
import Mathlib.Data.List.Basic
import Mathlib.Tactic.SplitIfs

/-!
# Text and its bytes

Well-formed bytes are exactly the encodings of texts: the decoder reads back every
encoded text, and what it reads without a report is the encoding of just that text.
Both directions rest on one fact about a single character: what a leading byte
announces fits a code point if and only if the byte opens its encoding.
-/
namespace CompilerDriver

namespace Utf8

/-- The last bytes of an encoding, each with six bits of the code point. -/
def trail (n : Nat) : Nat → Bytes
  | 0 => []
  | k + 1 => UInt8.ofNat (n / 64 ^ k % 64 + 0x80) :: trail n k

namespace Partial

/-- The code point begins with the bits read so far, and its next byte is in range. -/
structure Fits (p : Partial) (n : Nat) : Prop where
  due_pos : 0 < p.due
  bits : n / 64 ^ p.due = p.bits
  low : p.low.toNat ≤ n / 64 ^ (p.due - 1) % 64 + 0x80
  high : n / 64 ^ (p.due - 1) % 64 + 0x80 ≤ p.high.toNat

end Partial

/-- What a leading byte announces, in numbers. -/
theorem lead?_eq_some {b : UInt8} {p : Partial} (h : lead? b = some p) :
    (p.due = 1 ∧ (0xC2 ≤ b.toNat ∧ b.toNat ≤ 0xDF) ∧ p.bits + 0xC0 = b.toNat ∧
      p.low.toNat = 0x80 ∧ p.high.toNat = 0xBF) ∨
    (p.due = 2 ∧ (0xE0 ≤ b.toNat ∧ b.toNat ≤ 0xEF) ∧ p.bits + 0xE0 = b.toNat ∧
      (b.toNat = 0xE0 ∧ p.low.toNat = 0xA0 ∨ b.toNat ≠ 0xE0 ∧ p.low.toNat = 0x80) ∧
      (b.toNat = 0xED ∧ p.high.toNat = 0x9F ∨ b.toNat ≠ 0xED ∧ p.high.toNat = 0xBF)) ∨
    (p.due = 3 ∧ (0xF0 ≤ b.toNat ∧ b.toNat ≤ 0xF4) ∧ p.bits + 0xF0 = b.toNat ∧
      (b.toNat = 0xF0 ∧ p.low.toNat = 0x90 ∨ b.toNat ≠ 0xF0 ∧ p.low.toNat = 0x80) ∧
      (b.toNat = 0xF4 ∧ p.high.toNat = 0x8F ∨ b.toNat ≠ 0xF4 ∧ p.high.toNat = 0xBF)) := by
  simp only [lead?, UInt8.le_iff_toNat_le, ← UInt8.toNat_inj, UInt8.reduceToNat] at h
  split_ifs at h <;> obtain rfl := Option.some.inj h <;>
    simp only [UInt8.reduceToNat, and_true, true_and] <;> omega

theorem isAscii_iff {b : UInt8} : isAscii b = true ↔ b.toNat < 0x80 := by
  simp [isAscii, UInt8.lt_iff_toNat_lt]

theorem exists_lead? {b : UInt8} (hl : 0xC2 ≤ b.toNat) (hh : b.toNat ≤ 0xF4) :
    ∃ p, lead? b = some p := by
  simp only [lead?, UInt8.le_iff_toNat_le, ← UInt8.toNat_inj, UInt8.reduceToNat]
  split_ifs
  case neg => omega
  all_goals exact ⟨_, rfl⟩

namespace Partial.Fits

variable {b : UInt8} {p : Partial} {n : Nat}

theorem isValidChar (h : p.Fits n) (hb : lead? b = some p) : n.isValidChar := by
  obtain ⟨-, hbits, hlow, hhigh⟩ := h
  rcases lead?_eq_some hb with ⟨hd, hb, hp, hl, hh⟩ | ⟨hd, hb, hp, hl, hh⟩ | ⟨hd, hb, hp, hl, hh⟩
  all_goals
    simp only [hd, Nat.reduceSub, Nat.reducePow, Nat.div_one] at hbits hlow hhigh
    simp only [Nat.isValidChar]
    omega

/-- A code point that a leading byte announces is encoded from that byte on. -/
theorem utf8EncodeChar_eq {c : Char} (h : p.Fits c.toNat) (hb : lead? b = some p) :
    String.utf8EncodeChar c = b :: trail c.toNat p.due := by
  obtain ⟨-, hbits, hlow, hhigh⟩ := h
  have hc : c.val.toNat = c.toNat := rfl
  have hfirst {m : Nat} (hm : m % 2 ^ 8 = b.toNat) : UInt8.ofNat m = b :=
    UInt8.toNat_inj.mp (UInt8.toNat_ofNat'.trans hm)
  -- One case for each length of an encoding: two, three and four bytes.
  rcases lead?_eq_some hb with ⟨hd, hb, hp, hl, hh⟩ | ⟨hd, hb, hp, hl, hh⟩ | ⟨hd, hb, hp, hl, hh⟩
  all_goals
    simp only [hd, Nat.reduceSub, Nat.reducePow, Nat.div_one] at hbits hlow hhigh
    simp only [String.utf8EncodeChar, hc, trail, hd, Nat.reducePow, Nat.div_one]
  · rw [if_neg (by omega), if_pos (by omega)]
    exact congrArg (· :: _) (hfirst (by omega))
  · rw [if_neg (by omega), if_neg (by omega), if_pos (by omega)]
    exact congrArg (· :: _) (hfirst (by omega))
  · rw [if_neg (by omega), if_neg (by omega), if_neg (by omega)]
    exact congrArg (· :: _) (hfirst (by omega))

end Partial.Fits

/-- Every character beyond the ASCII ones has a leading byte. -/
theorem exists_lead {c : Char} (h : 0x80 ≤ c.toNat) :
    ∃ b p, lead? b = some p ∧ p.Fits c.toNat := by
  have hv : c.toNat < 0xD800 ∨ 0xDFFF < c.toNat ∧ c.toNat < 0x110000 := c.valid
  obtain ⟨b, hl, hh, hb⟩ : ∃ b : UInt8, 0xC2 ≤ b.toNat ∧ b.toNat ≤ 0xF4 ∧
      (c.toNat ≤ 0x7FF ∧ b.toNat = c.toNat / 64 + 0xC0 ∨
       (0x7FF < c.toNat ∧ c.toNat ≤ 0xFFFF) ∧ b.toNat = c.toNat / 4096 + 0xE0 ∨
       0xFFFF < c.toNat ∧ b.toNat = c.toNat / 262144 + 0xF0) := by
    have hb (m : Nat) (hm : m < 256) : (UInt8.ofNat m).toNat = m :=
      UInt8.toNat_ofNat_of_lt' hm
    rcases Nat.lt_or_ge 0x7FF c.toNat with h2 | h2
    rcases Nat.lt_or_ge 0xFFFF c.toNat with h3 | h3
    · exact ⟨.ofNat (c.toNat / 262144 + 0xF0), by rw [hb _ (by omega)]; omega⟩
    · exact ⟨.ofNat (c.toNat / 4096 + 0xE0), by rw [hb _ (by omega)]; omega⟩
    · exact ⟨.ofNat (c.toNat / 64 + 0xC0), by rw [hb _ (by omega)]; omega⟩
  obtain ⟨p, hp⟩ := exists_lead? hl hh
  refine ⟨b, p, hp, ?_⟩
  rcases lead?_eq_some hp with ⟨hd, hb, hp, hl, hh⟩ | ⟨hd, hb, hp, hl, hh⟩ | ⟨hd, hb, hp, hl, hh⟩
  all_goals
    constructor
    all_goals
      simp only [hd, Nat.reduceSub, Nat.reducePow, Nat.div_one]
      omega

/-- The character under way after one more byte. -/
def Partial.next (p : Partial) (b : UInt8) : Partial :=
  ⟨p.bits * 64 + (b.toNat - 0x80), p.due - 1, 0x80, 0xBF⟩

theorem Partial.next_bits (p : Partial) (b : UInt8) :
    (p.next b).bits = p.bits * 64 + (b.toNat - 0x80) := rfl

theorem Partial.next_due (p : Partial) (b : UInt8) : (p.next b).due = p.due - 1 := rfl

theorem resume_cons {p : Partial} {b : UInt8} (h : p.low ≤ b ∧ b ≤ p.high) (rest : Bytes) :
    resume p (b :: rest) =
      if p.due = 1 then some (Char.ofNat (p.next b).bits) :: decode rest
      else resume (p.next b) rest := by
  rw [resume, if_pos h]
  rfl

theorem toNat_trail (m : Nat) : (UInt8.ofNat (m % 64 + 0x80)).toNat = m % 64 + 0x80 :=
  UInt8.toNat_ofNat'.trans (Nat.mod_eq_of_lt (by omega))

namespace Partial.Fits

variable {p : Partial} {n k : Nat}

/-- The byte that is due brings the next six bits. -/
theorem bits_next (h : p.Fits n) (hk : p.due = k + 1) :
    (p.next (.ofNat (n / 64 ^ k % 64 + 0x80))).bits = n / 64 ^ k := by
  rw [next_bits, toNat_trail, Nat.add_sub_cancel, ← h.bits, hk, Nat.pow_succ,
    ← Nat.div_div_eq_div_mul]
  exact Nat.div_add_mod' _ _

theorem mem_range (h : p.Fits n) (hk : p.due = k + 1) :
    p.low ≤ .ofNat (n / 64 ^ k % 64 + 0x80) ∧ .ofNat (n / 64 ^ k % 64 + 0x80) ≤ p.high := by
  have hl := h.low
  have hh := h.high
  rw [hk, Nat.add_sub_cancel] at hl hh
  rw [UInt8.le_iff_toNat_le, UInt8.le_iff_toNat_le, toNat_trail]
  exact ⟨hl, hh⟩

/-- The bytes after the second have the full range. -/
theorem of_bits {bits due : Nat} (hd : 0 < due) (h : n / 64 ^ due = bits) :
    Partial.Fits ⟨bits, due, 0x80, 0xBF⟩ n where
  due_pos := hd
  bits := h
  low := Nat.le_add_left _ _
  high := by
    have := Nat.mod_lt (n / 64 ^ (due - 1)) (show 0 < 64 by decide)
    change _ ≤ 0xBF
    omega

theorem next (h : p.Fits n) (hk : p.due = k + 1) (hpos : 0 < k) :
    (p.next (.ofNat (n / 64 ^ k % 64 + 0x80))).Fits n := by
  have hb := h.bits_next hk
  have hd : p.due - 1 = k := by rw [hk, Nat.add_sub_cancel]
  exact of_bits (hd ▸ hpos) (by rw [hd]; exact hb.symm)

end Partial.Fits

/-- Inside a character, the rest of its encoding is read to its end. -/
theorem resume_trail {p : Partial} {n : Nat} (h : p.Fits n) (rest : Bytes) :
    resume p (trail n p.due ++ rest) = some (Char.ofNat n) :: decode rest := by
  obtain ⟨k, hk⟩ : ∃ k, p.due = k + 1 := ⟨p.due - 1, (Nat.sub_add_cancel h.due_pos).symm⟩
  induction k generalizing p with
  | zero =>
    have hb : _ = n / 1 := h.bits_next hk
    rw [hk, trail, List.cons_append, resume_cons (h.mem_range hk), if_pos hk, hb, Nat.div_one]
    rfl
  | succ k ih =>
    have hd : (p.next (.ofNat (n / 64 ^ (k + 1) % 64 + 0x80))).due = k + 1 := by
      rw [Partial.next_due, hk, Nat.add_sub_cancel]
    rw [hk, trail, List.cons_append, resume_cons (h.mem_range hk), if_neg (by omega)]
    have hn := ih (h.next hk (Nat.succ_pos k)) hd
    rwa [hd] at hn

theorem toNat_ofNat {n : Nat} (h : n.isValidChar) : (Char.ofNat n).toNat = n := by
  rw [Char.ofNat, dif_pos h]
  rfl

theorem utf8EncodeChar_ascii {c : Char} (h : c.toNat < 0x80) :
    String.utf8EncodeChar c = [.ofNat c.toNat] :=
  if_pos (Nat.le_of_lt_succ h)

theorem decode_ascii {b : UInt8} (h : isAscii b = true) (rest : Bytes) :
    decode (b :: rest) = some (Char.ofNat b.toNat) :: decode rest := by
  rw [decode, if_pos h]

theorem decode_lead {b : UInt8} {p : Partial} (h : lead? b = some p) (rest : Bytes) :
    decode (b :: rest) = resume p rest := by
  have ha : ¬isAscii b = true := by
    rw [isAscii_iff]
    rcases lead?_eq_some h with ⟨-, hb, -⟩ | ⟨-, hb, -⟩ | ⟨-, hb, -⟩ <;> omega
  rw [decode, if_neg ha, h]

theorem decode_utf8EncodeChar (c : Char) (rest : Bytes) :
    decode (String.utf8EncodeChar c ++ rest) = some c :: decode rest := by
  rcases Nat.lt_or_ge c.toNat 0x80 with h | h
  · have hb : (UInt8.ofNat c.toNat).toNat = c.toNat := by rw [UInt8.toNat_ofNat']; omega
    rw [utf8EncodeChar_ascii h, List.singleton_append,
      decode_ascii (isAscii_iff.mpr (hb.symm ▸ h)), hb, Char.ofNat_toNat]
  · obtain ⟨b, p, hb, hp⟩ := exists_lead h
    rw [hp.utf8EncodeChar_eq hb, List.cons_append, decode_lead hb, resume_trail hp,
      Char.ofNat_toNat]

theorem decode_encodeChars (cs : List Char) : decode (encodeChars cs) = cs.map some := by
  induction cs with
  | nil => rfl
  | cons c cs ih => rw [encodeChars_cons, decode_utf8EncodeChar, ih, List.map_cons]

/-- Bytes are read inside a character: some are due, and all of them are continuations. -/
structure Partial.Open (p : Partial) : Prop where
  due_pos : 0 < p.due
  low : 0x80 ≤ p.low.toNat
  high : p.high.toNat ≤ 0xBF

theorem Partial.open_of_lead {b : UInt8} {p : Partial} (h : lead? b = some p) : p.Open := by
  rcases lead?_eq_some h with ⟨hd, -, -, hl, hh⟩ | ⟨hd, -, -, hl, hh⟩ | ⟨hd, -, -, hl, hh⟩ <;>
    exact ⟨by omega, by omega, by omega⟩

theorem Partial.Open.next {p : Partial} (hd : 1 < p.due) (b : UInt8) : (p.next b).Open :=
  ⟨by rw [next_due]; omega, Nat.le_refl 0x80, Nat.le_refl 0xBF⟩

/-- A code point that the next byte leaves fitting did fit before it, and the byte is in it. -/
theorem Partial.Open.fits_of_bits {p : Partial} (hp : p.Open) {b : UInt8}
    (hb : p.low ≤ b ∧ b ≤ p.high) {n : Nat} (h : n / 64 ^ (p.due - 1) = (p.next b).bits) :
    p.Fits n ∧ trail n p.due = b :: trail n (p.due - 1) := by
  obtain ⟨hd, hl, hh⟩ := hp
  rw [UInt8.le_iff_toNat_le, UInt8.le_iff_toNat_le] at hb
  obtain ⟨k, hk⟩ : ∃ k, p.due = k + 1 := ⟨p.due - 1, (Nat.sub_add_cancel hd).symm⟩
  rw [next_bits, hk, Nat.add_sub_cancel] at h
  have hmod : n / 64 ^ k % 64 + 0x80 = b.toNat := by omega
  refine ⟨⟨hd, ?_, ?_, ?_⟩, ?_⟩
  · rw [hk, Nat.pow_succ, ← Nat.div_div_eq_div_mul]
    omega
  · rw [hk, Nat.add_sub_cancel, hmod]
    exact hb.1
  · rw [hk, Nat.add_sub_cancel, hmod]
    exact hb.2
  · rw [hk, trail, hmod, UInt8.ofNat_toNat, Nat.add_sub_cancel]

/-- What is read inside a character without a report is the rest of its encoding. -/
theorem exists_fits_of_resume {bs : Bytes} {c : Char} {l : List (Option Char)} {p : Partial}
    (hp : p.Open) (h : resume p bs = some c :: l) :
    ∃ n rest, p.Fits n ∧ bs = trail n p.due ++ rest ∧ c = Char.ofNat n ∧ l = decode rest := by
  induction bs generalizing p with
  | nil => cases h
  | cons b bs ih =>
    by_cases hb : p.low ≤ b ∧ b ≤ p.high
    · rw [resume_cons hb] at h
      split at h
      · next hd =>
        obtain ⟨hc, hl⟩ := List.cons.inj h
        have hbits : (p.next b).bits / 64 ^ (p.due - 1) = (p.next b).bits := by
          rw [hd]
          exact Nat.div_one _
        obtain ⟨hf, ht⟩ := hp.fits_of_bits hb hbits
        exact ⟨_, bs, hf, by rw [ht, hd]; rfl, (Option.some.inj hc).symm, hl.symm⟩
      · next hd =>
        have hd' : 1 < p.due := by have := hp.due_pos; omega
        obtain ⟨n, rest, hn, rfl, hc, hl⟩ := ih (.next hd' b) h
        obtain ⟨hf, ht⟩ := hp.fits_of_bits hb hn.bits
        exact ⟨n, rest, hf, by rw [ht]; rfl, hc, hl⟩
    · rw [resume, if_neg hb] at h
      split at h
      · cases h
      · split at h <;> cases h

/-- What is read first without a report is the encoding of the character. -/
theorem exists_of_decode_eq_cons {bs : Bytes} {c : Char} {l : List (Option Char)}
    (h : decode bs = some c :: l) :
    ∃ rest, bs = String.utf8EncodeChar c ++ rest ∧ l = decode rest := by
  cases bs with
  | nil => cases h
  | cons b bs =>
    by_cases ha : isAscii b = true
    · rw [decode_ascii ha] at h
      obtain ⟨hc, hl⟩ := List.cons.inj h
      obtain rfl := Option.some.inj hc
      rw [isAscii_iff] at ha
      have hv : (Char.ofNat b.toNat).toNat = b.toNat := toNat_ofNat (Or.inl (by omega))
      refine ⟨bs, ?_, hl.symm⟩
      rw [utf8EncodeChar_ascii (hv.symm ▸ ha), hv, UInt8.ofNat_toNat, List.singleton_append]
    · cases hp : lead? b with
      | none =>
        rw [decode, if_neg ha, hp] at h
        cases h
      | some p =>
        rw [decode_lead hp] at h
        obtain ⟨n, rest, hn, rfl, rfl, hl⟩ := exists_fits_of_resume (Partial.open_of_lead hp) h
        have hv := toNat_ofNat (hn.isValidChar hp)
        refine ⟨rest, ?_, hl⟩
        rw [Partial.Fits.utf8EncodeChar_eq (hv.symm ▸ hn) hp, hv, List.cons_append]

theorem resume_ne_nil (p : Partial) (bs : Bytes) : resume p bs ≠ [] := by
  induction bs generalizing p with
  | nil => exact List.cons_ne_nil _ _
  | cons b bs ih =>
    by_cases hb : p.low ≤ b ∧ b ≤ p.high
    · rw [resume_cons hb]
      split
      · exact List.cons_ne_nil _ _
      · exact ih _
    · rw [resume, if_neg hb]
      split
      · exact List.cons_ne_nil _ _
      · split <;> exact List.cons_ne_nil _ _

theorem decode_ne_nil (b : UInt8) (bs : Bytes) : decode (b :: bs) ≠ [] := by
  rw [decode]
  split
  · exact List.cons_ne_nil _ _
  · split
    · exact resume_ne_nil _ _
    · exact List.cons_ne_nil _ _

/-- What is read without a report was encoded from what is read. -/
theorem eq_encodeChars_of_decode {bs : Bytes} {cs : List Char} (h : decode bs = cs.map some) :
    bs = encodeChars cs := by
  induction cs generalizing bs with
  | nil =>
    cases bs with
    | nil => rfl
    | cons b bs => exact absurd h (decode_ne_nil b bs)
  | cons c cs ih =>
    obtain ⟨rest, rfl, hl⟩ := exists_of_decode_eq_cons h
    rw [encodeChars_cons, ← ih hl.symm]

theorem mapM_id_eq_some {l : List (Option Char)} {cs : List Char} :
    l.mapM id = some cs ↔ l = cs.map some := by
  induction l generalizing cs with
  | nil => cases cs <;> simp
  | cons o l ih =>
    cases o with
    | none => cases cs <;> simp
    | some c => cases cs <;> simp [List.mapM_cons, Option.bind_eq_some_iff, ih, and_comm]

/-- Bytes are well-formed exactly if they encode a text, which is then the one they are read as. -/
theorem decode?_eq_some_iff {bs : Bytes} {s : String} : decode? bs = some s ↔ bs = encode s := by
  rw [decode?, Option.map_eq_some_iff]
  constructor
  · rintro ⟨cs, h, rfl⟩
    rw [encode, String.toList_ofList]
    exact eq_encodeChars_of_decode (mapM_id_eq_some.mp h)
  · rintro rfl
    exact ⟨s.toList, mapM_id_eq_some.mpr (decode_encodeChars _), String.ofList_toList⟩

/-- A text is displayed as it is. -/
theorem lossy_encode (s : String) : lossy (encode s) = s := by
  rw [lossy, encode, decode_encodeChars, List.map_map]
  exact (congrArg String.ofList (List.map_id _)).trans String.ofList_toList

end Utf8

end CompilerDriver
