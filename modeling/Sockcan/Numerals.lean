import Mathlib.Data.Nat.Digits.Lemmas

/-! Numerals in a base up to sixteen, what pads them to a width, and the words of a line. -/
namespace Sockcan.Numerals

def glyphs : List Char :=
  ['0', '1', '2', '3', '4', '5', '6', '7', '8', '9', 'A', 'B', 'C', 'D', 'E', 'F']

def glyph (digit : Nat) : Char := glyphs.getD digit '0'

/-- The numeral of `n`, most significant digit first, and one digit for zero. -/
def numeral (base n : Nat) : List Char :=
  if n = 0 then [glyph 0] else (base.digits n).reverse.map glyph

def digitOf (base : Nat) (c : Char) : Option Nat :=
  (glyphs.idxOf? c).filter fun digit => decide (digit < base)

def readNumeral (base : Nat) (text : List Char) : Option Nat :=
  (text.mapM (digitOf base)).map fun digits => Nat.ofDigits base digits.reverse

/-- The text, padded to the width from the left. -/
def pad (fill : Char) (width : Nat) (text : List Char) : List Char :=
  List.replicate (width - text.length) fill ++ text

theorem mem_pad {fill c : Char} {width : Nat} {text : List Char}
    (member : c ∈ pad fill width text) : c = fill ∨ c ∈ text :=
  (List.mem_append.mp member).imp_left List.eq_of_mem_replicate

def words (line : List Char) : List (List Char) :=
  (line.splitOn ' ').filter fun word => decide (word ≠ [])

section Digits
variable {base n : Nat} {text : List Char}

theorem digitOf_glyph {digit : Nat} (small : digit < base) (bounded : base ≤ 16) :
    digitOf base (glyph digit) = some digit := by
  have found : ∀ digit < 16, glyphs.idxOf? (glyph digit) = some digit := by decide
  rw [digitOf, found digit (small.trans_le bounded), Option.filter_some_pos]
  exact decide_eq_true small

theorem mapM_glyph {digits : List Nat} (small : ∀ digit ∈ digits, digit < base)
    (bounded : base ≤ 16) : (digits.map glyph).mapM (digitOf base) = some digits := by
  induction digits with
  | nil => rfl
  | cons digit rest ih =>
    obtain ⟨first, others⟩ := List.forall_mem_cons.mp small
    simp [digitOf_glyph first bounded, ih others]

/-- The digits that a numeral spells; zero spells one. -/
def spelled (base n : Nat) : List Nat := if n = 0 then [0] else (base.digits n).reverse

theorem numeral_eq (base n : Nat) : numeral base n = (spelled base n).map glyph := by
  unfold numeral spelled
  split <;> rfl

theorem spelled_lt (two : 2 ≤ base) : ∀ digit ∈ spelled base n, digit < base := by
  intro digit member
  unfold spelled at member
  split at member
  · rw [List.mem_singleton.mp member]
    omega
  · exact Nat.digits_lt_base two (List.mem_reverse.mp member)

theorem ofDigits_spelled (base n : Nat) : Nat.ofDigits base (spelled base n).reverse = n := by
  unfold spelled
  split
  · next zero => simp [zero]
  · rw [List.reverse_reverse, Nat.ofDigits_digits]

/-- Leading zeros do not count. -/
theorem readNumeral_pad (two : 2 ≤ base) (bounded : base ≤ 16) (width n : Nat) :
    readNumeral base (pad (glyph 0) width (numeral base n)) = some n := by
  have zeros : pad (glyph 0) width (numeral base n) =
      (List.replicate (width - (numeral base n).length) 0 ++ spelled base n).map glyph := by
    rw [pad, List.map_append, List.map_replicate, numeral_eq]
  have small : ∀ digit ∈ List.replicate (width - (numeral base n).length) 0 ++ spelled base n,
      digit < base := by
    intro digit member
    rcases List.mem_append.mp member with zero | spells
    · rw [List.eq_of_mem_replicate zero]
      omega
    · exact spelled_lt two digit spells
  rw [readNumeral, zeros, mapM_glyph small bounded, Option.map_some, List.reverse_append,
    List.reverse_replicate, Nat.ofDigits_append_replicate_zero, ofDigits_spelled]

theorem readNumeral_numeral (two : 2 ≤ base) (bounded : base ≤ 16) (n : Nat) :
    readNumeral base (numeral base n) = some n := by
  have unpadded : pad (glyph 0) 0 (numeral base n) = numeral base n := by simp [pad]
  rw [← unpadded]
  exact readNumeral_pad two bounded 0 n

theorem numeral_length_le {width : Nat} (two : 2 ≤ base) (positive : 0 < width) :
    (numeral base n).length ≤ width ↔ n < base ^ width := by
  unfold numeral
  split
  · next zero =>
    subst zero
    exact iff_of_true positive (Nat.pow_pos (by omega))
  · rw [List.length_map, List.length_reverse]
    exact Nat.digits_length_le_iff (by omega) n

theorem glyph_mem (digit : Nat) : glyph digit ∈ glyphs := by
  rw [glyph, List.getD_eq_getElem?_getD]
  cases found : glyphs[digit]? with
  | none => decide
  | some c => exact List.mem_of_getElem? found

end Digits

section Words

/-- A word has a character, no blank and no end of a line. -/
def IsWord (text : List Char) : Prop := text ≠ [] ∧ ' ' ∉ text ∧ '\n' ∉ text

instance (text : List Char) : Decidable (IsWord text) := inferInstanceAs (Decidable (_ ∧ _ ∧ _))

theorem IsWord.of_glyphs {text : List Char} (nonempty : text ≠ [])
    (glyphs_only : ∀ c ∈ text, c ∈ glyphs) : IsWord text := by
  refine ⟨nonempty, fun blank => ?_, fun line_end => ?_⟩
  · exact absurd (glyphs_only _ blank) (by decide)
  · exact absurd (glyphs_only _ line_end) (by decide)

theorem glyphs_of_numeral {base n : Nat} : ∀ c ∈ numeral base n, c ∈ glyphs := by
  intro c member
  rw [numeral_eq] at member
  obtain ⟨digit, _, rfl⟩ := List.mem_map.mp member
  exact glyph_mem digit

theorem numeral_ne_nil (base n : Nat) : numeral base n ≠ [] := by
  unfold numeral
  split
  · exact List.cons_ne_nil _ _
  · next nonzero =>
    intro none_spelled
    simp [Nat.digits_ne_nil_iff_ne_zero.mpr nonzero] at none_spelled

theorem isWord_pad_numeral (base width n : Nat) :
    IsWord (pad (glyph 0) width (numeral base n)) := by
  refine .of_glyphs (List.append_ne_nil_of_right_ne_nil _ (numeral_ne_nil base n)) ?_
  intro c member
  rcases List.mem_append.mp member with zero | digit
  · rw [List.eq_of_mem_replicate zero]
    exact glyph_mem 0
  · exact glyphs_of_numeral c digit

theorem isWord_numeral (base n : Nat) : IsWord (numeral base n) :=
  .of_glyphs (numeral_ne_nil base n) glyphs_of_numeral

theorem words_append (first rest : List Char) :
    words (first ++ ' ' :: rest) = words first ++ words rest := by
  rw [words, List.splitOn_append_cons_self, List.filter_append]
  rfl

theorem words_word {text : List Char} (word : IsWord text) : words text = [text] := by
  simp [words, List.splitOn_eq_singleton word.2.1, word.1]

theorem words_blanks (count : Nat) (text : List Char) :
    words (List.replicate count ' ' ++ text) = words text := by
  induction count with
  | zero => rfl
  | succ count ih =>
    rw [List.replicate_succ, List.cons_append]
    exact (words_append [] _).trans ih

theorem words_pad (width : Nat) (text : List Char) : words (pad ' ' width text) = words text :=
  words_blanks _ text

/-- `" ".join`. -/
theorem words_join {texts : List (List Char)} (all : ∀ text ∈ texts, IsWord text) :
    words ([' '].intercalate texts) = texts := by
  induction texts with
  | nil => simp [words]
  | cons first rest ih =>
    obtain ⟨word, others⟩ := List.forall_mem_cons.mp all
    cases rest with
    | nil => simpa using words_word word
    | cons second later =>
      have joined : [' '].intercalate (first :: second :: later) =
          first ++ ' ' :: [' '].intercalate (second :: later) := by simp
      rw [joined, words_append, words_word word, ih others]
      rfl

end Words

end Sockcan.Numerals
