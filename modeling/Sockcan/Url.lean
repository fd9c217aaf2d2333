import Sockcan.Text
import Mathlib.Data.List.SplitBy
import Mathlib.Data.List.TakeWhile

/-! Percent-encoding and query strings: what `urllib.parse` makes of the target of a
request. -/
namespace Sockcan.Url
open Text

section Unquote

def hexValue (c : Char) : Option Nat :=
  if '0' ≤ c ∧ c ≤ '9' then some (c.toNat - '0'.toNat)
  else if 'A' ≤ c ∧ c ≤ 'F' then some (c.toNat - 'A'.toNat + 10)
  else if 'a' ≤ c ∧ c ≤ 'f' then some (c.toNat - 'a'.toNat + 10)
  else none

/-- The byte of an escape, from its two digits. -/
def escaped (high low : Char) : Option UInt8 :=
  match hexValue high, hexValue low with
  | some high, some low => some (UInt8.ofNat (16 * high + low))
  | _, _ => none

/-- `unquote_to_bytes`, of ASCII text. -/
def unquoteToBytes : List Char → List UInt8
  | [] => []
  | c :: rest =>
    if c = '%' then
      match rest with
      | [] => [37]
      | [only] => [37, UInt8.ofNat only.toNat]
      | high :: low :: later => match escaped high low with
        | some byte => byte :: unquoteToBytes later
        | none => 37 :: unquoteToBytes (high :: low :: later)
    else UInt8.ofNat c.toNat :: unquoteToBytes rest

def isAscii (c : Char) : Bool := decide (c.toNat < 128)

/-- A stretch of ASCII text, or of any other. -/
def unquoteRun (run : List Char) : List Char :=
  if run.all isAscii then decodeReplace (unquoteToBytes run) else run

def unquote (text : List Char) : List Char :=
  if '%' ∈ text then
    (text.splitBy fun first second => isAscii first == isAscii second).flatMap unquoteRun
  else text

end Unquote

section Query

/-- `text.partition(separator)`, where the separator is there. -/
def partition (separator : Char) (text : List Char) : Option (List Char × List Char) :=
  if separator ∈ text then
    some (text.takeWhile (· ≠ separator), (text.dropWhile (· ≠ separator)).tail)
  else none

def plusToSpace (c : Char) : Char := if c = '+' then ' ' else c

def unquotePlus (text : List Char) : List Char := unquote (text.map plusToSpace)

/-- One field of a query. Blank values are dropped. -/
def parseField (field : List Char) : Option (List Char × List Char) :=
  match partition '=' field with
  | none | some (_, []) => none
  | some (name, value) => some (unquotePlus name, unquotePlus value)

def parseQsl (query : List Char) : List (List Char × List Char) :=
  (query.splitOn '&').filterMap parseField

/-- `parse_qs(query).get(name, [None])[0]`. -/
def firstValue (name query : List Char) : Option (List Char) := (parseQsl query).lookup name

/-- `urlparse(url).path` and `urlparse(url).query` of a target that begins with one slash:
it has no scheme and no host. The parameters go with the last segment of the path. -/
def urlparse (url : List Char) : List Char × List Char :=
  let url := url.takeWhile (· ≠ '#')
  let path := url.takeWhile (· ≠ '?')
  let last := (path.reverse.takeWhile (· ≠ '/')).reverse
  (path.take (path.length - last.length) ++ last.takeWhile (· ≠ ';'),
    (url.dropWhile (· ≠ '?')).tail)

end Query

/-- Where a stretch of text ends. -/
theorem stops_at {α : Type} {p : α → Bool} {front back : List α} {stop : α}
    (inside : ∀ c ∈ front, p c = true) (outside : p stop = false) :
    (front ++ stop :: back).takeWhile p = front ∧
      (front ++ stop :: back).dropWhile p = stop :: back := by
  have ends : ¬ p stop = true := by simp [outside]
  constructor
  · rw [List.takeWhile_append_of_pos inside, List.takeWhile_cons_of_neg ends, List.append_nil]
  · rw [List.dropWhile_append_of_pos inside, List.dropWhile_cons_of_neg ends]

theorem all_or_stops {α : Type} (p : α → Bool) (text : List α) :
    (∀ c ∈ text, p c = true) ∨ ∃ front stop back, text = front ++ stop :: back ∧
      (∀ c ∈ front, p c = true) ∧ p stop = false := by
  induction text with
  | nil => exact Or.inl (by simp)
  | cons c rest ih =>
    cases first : p c with
    | false => exact Or.inr ⟨[], c, rest, rfl, by simp, first⟩
    | true =>
      rcases ih with all | ⟨front, stop, back, rfl, inside, outside⟩
      · exact Or.inl (List.forall_mem_cons.mpr ⟨first, all⟩)
      · have longer : ∀ other ∈ c :: front, p other = true :=
          List.forall_mem_cons.mpr ⟨first, inside⟩
        exact Or.inr ⟨c :: front, stop, back, rfl, longer, outside⟩

section Unquoting
variable {text : List Char}

/-- An escape: the percent sign with two hexadecimal digits. -/
def HasEscape (text : List Char) : Prop :=
  ∃ high low, (escaped high low).isSome ∧ ['%', high, low] <:+: text

theorem hasEscape_cons {c : Char} : HasEscape (c :: text) ↔
    (∃ high low later, c = '%' ∧ text = high :: low :: later ∧ (escaped high low).isSome) ∨
      HasEscape text := by
  constructor
  · rintro ⟨high, low, digits, inside⟩
    rcases List.infix_cons_iff.mp inside with ⟨later, starts⟩ | inside
    · simp only [List.cons_append, List.nil_append, List.cons.injEq] at starts
      exact Or.inl ⟨high, low, later, starts.1.symm, starts.2.symm, digits⟩
    · exact Or.inr ⟨high, low, digits, inside⟩
  · rintro (⟨high, low, later, rfl, rfl, digits⟩ | ⟨high, low, digits, inside⟩)
    · exact ⟨high, low, digits, List.IsPrefix.isInfix ⟨later, rfl⟩⟩
    · exact ⟨high, low, digits, List.infix_cons_iff.mpr (Or.inr inside)⟩

theorem not_hasEscape_of_short (short : text.length < 3) : ¬ HasEscape text := by
  rintro ⟨high, low, _, inside⟩
  have long := inside.length_le
  simp only [List.length_cons, List.length_nil] at long
  omega

theorem not_hasEscape (absent : '%' ∉ text) : ¬ HasEscape text := by
  rintro ⟨high, low, _, inside⟩
  exact absent (inside.subset List.mem_cons_self)

theorem unquoteToBytes_cons {c : Char} (other : c ≠ '%') :
    unquoteToBytes (c :: text) = UInt8.ofNat c.toNat :: unquoteToBytes text := by
  cases text with
  | nil => simp only [unquoteToBytes, if_neg other]
  | cons second later =>
    cases later with
    | nil => simp only [unquoteToBytes, if_neg other]
    | cons => simp only [unquoteToBytes, if_neg other]

theorem unquoteToBytes_escape {high low : Char} {byte : UInt8}
    (digits : escaped high low = some byte) :
    unquoteToBytes ('%' :: high :: low :: text) = byte :: unquoteToBytes text := by
  simp only [unquoteToBytes, if_true, digits]

/-- Text without escapes stands for itself; every escape makes it shorter. -/
theorem unquoteToBytes_cases (text : List Char) :
    (¬ HasEscape text ∧ unquoteToBytes text = text.map fun c => UInt8.ofNat c.toNat) ∨
      HasEscape text ∧ (unquoteToBytes text).length < text.length := by
  induction text using unquoteToBytes.induct with
  | case1 => exact Or.inl ⟨not_hasEscape_of_short (by decide), rfl⟩
  | case2 => exact Or.inl ⟨not_hasEscape_of_short (by decide), rfl⟩
  | case3 only =>
    refine Or.inl ⟨not_hasEscape_of_short (Nat.lt_succ_self 2), ?_⟩
    simp [unquoteToBytes]
  | case4 high low later byte digits ih =>
    right
    constructor
    · exact hasEscape_cons.mpr (Or.inl ⟨high, low, later, rfl, rfl, by rw [digits]; rfl⟩)
    · have bound : (unquoteToBytes later).length ≤ later.length := by
        rcases ih with ⟨_, same⟩ | ⟨_, shorter⟩
        · rw [same, List.length_map]
        · exact Nat.le_of_lt shorter
      simp only [unquoteToBytes_escape digits, List.length_cons]
      omega
  | case5 high low later digits ih =>
    have step : unquoteToBytes ('%' :: high :: low :: later) =
        37 :: unquoteToBytes (high :: low :: later) := by
      simp only [unquoteToBytes, if_true, digits]
    have escapes : HasEscape ('%' :: high :: low :: later) ↔ HasEscape (high :: low :: later) := by
      rw [hasEscape_cons]
      apply or_iff_right
      rintro ⟨_, _, _, _, ⟨⟩, some_digits⟩
      rw [digits] at some_digits
      contradiction
    rw [step, escapes]
    rcases ih with ⟨plain, same⟩ | ⟨escape, shorter⟩
    · exact Or.inl ⟨plain, by rw [same]; rfl⟩
    · exact Or.inr ⟨escape, Nat.succ_lt_succ shorter⟩
  | case6 c rest other ih =>
    have escapes : HasEscape (c :: rest) ↔ HasEscape rest := by
      rw [hasEscape_cons]
      apply or_iff_right
      rintro ⟨_, _, _, percent, _⟩
      exact other percent
    rw [escapes, unquoteToBytes_cons other]
    rcases ih with ⟨plain, same⟩ | ⟨escape, shorter⟩
    · exact Or.inl ⟨plain, by rw [same]; rfl⟩
    · exact Or.inr ⟨escape, Nat.succ_lt_succ shorter⟩

/-- The bytes of ASCII text, decoded. -/
theorem decodeReplace_plain (ascii : ∀ c ∈ text, c.toNat < 128) :
    decodeReplace (text.map fun c => UInt8.ofNat c.toNat) = text := by
  have value {c : Char} (member : c ∈ text) : (UInt8.ofNat c.toNat).toNat = c.toNat :=
    UInt8.toNat_ofNat_of_lt' (Nat.lt_trans (ascii c member) (by decide))
  rw [decodeReplace_ascii, latin1, List.map_map]
  · calc text.map ((fun byte : UInt8 => Char.ofNat byte.toNat) ∘ fun c => UInt8.ofNat c.toNat)
        = text.map id := by
          apply List.map_congr_left
          intro c member
          rw [Function.comp_apply, value member, Char.ofNat_toNat, id]
      _ = text := List.map_id text
  · rw [List.forall_mem_map]
    intro c member
    rw [value member]
    exact ascii c member

theorem unquoteRun_cases (run : List Char) :
    unquoteRun run = run ∨ (unquoteRun run).countP isAscii < run.countP isAscii := by
  unfold unquoteRun
  split
  next ascii =>
    have all : run.countP isAscii = run.length :=
      List.countP_eq_length.mpr (List.all_eq_true.mp ascii)
    rcases unquoteToBytes_cases run with ⟨_, same⟩ | ⟨_, shorter⟩
    · left
      rw [same]
      apply decodeReplace_plain
      intro c member
      exact of_decide_eq_true (List.all_eq_true.mp ascii c member)
    · right
      calc (decodeReplace (unquoteToBytes run)).countP isAscii
          ≤ (decodeReplace (unquoteToBytes run)).length := List.countP_le_length
        _ ≤ (unquoteToBytes run).length := decodeAfter_length_le 0 _
        _ < run.countP isAscii := by rwa [all]
  next => exact Or.inl rfl

/-- Unquoting leaves text as it is, or takes ASCII characters from it. -/
theorem unquote_cases (text : List Char) :
    unquote text = text ∨ (unquote text).countP isAscii < text.countP isAscii := by
  have runs (parts : List (List Char)) : parts.flatMap unquoteRun = parts.flatten ∨
      (parts.flatMap unquoteRun).countP isAscii < parts.flatten.countP isAscii := by
    induction parts with
    | nil => exact Or.inl rfl
    | cons run rest ih =>
      rw [List.flatMap_cons, List.flatten_cons, List.countP_append, List.countP_append]
      rcases unquoteRun_cases run with same | fewer
      · rw [same]
        rcases ih with rest_same | rest_fewer
        · exact Or.inl (by rw [rest_same])
        · exact Or.inr (Nat.add_lt_add_left rest_fewer _)
      · right
        rcases ih with rest_same | rest_fewer
        · rw [rest_same]
          exact Nat.add_lt_add_right fewer _
        · exact Nat.add_lt_add fewer rest_fewer
  unfold unquote
  split
  next =>
    have whole := runs (text.splitBy fun first second => isAscii first == isAscii second)
    rwa [List.flatten_splitBy] at whole
  next => exact Or.inl rfl

/-- ASCII text is one run. -/
theorem unquote_ascii (ascii : ∀ c ∈ text, c.toNat < 128) :
    unquote text = decodeReplace (unquoteToBytes text) := by
  have flags : ∀ c ∈ text, isAscii c = true := fun c member => decide_eq_true (ascii c member)
  unfold unquote
  split
  next escapes =>
    have nonempty : text ≠ [] := List.ne_nil_of_mem escapes
    rw [List.splitBy_of_isChain nonempty]
    · rw [List.flatMap_singleton, unquoteRun, if_pos (List.all_eq_true.mpr flags)]
    · apply List.Pairwise.isChain
      apply List.pairwise_of_forall_mem_list
      intro first member second among
      rw [flags first member, flags second among]
      rfl
  next absent =>
    rcases unquoteToBytes_cases text with ⟨_, same⟩ | ⟨escape, _⟩
    · rw [same, decodeReplace_plain ascii]
    · exact absurd escape (not_hasEscape absent)

theorem unquote_eq_self_iff (ascii : ∀ c ∈ text, c.toNat < 128) :
    unquote text = text ↔ ¬ HasEscape text := by
  rw [unquote_ascii ascii]
  rcases unquoteToBytes_cases text with ⟨plain, same⟩ | ⟨escape, shorter⟩
  · rw [same, decodeReplace_plain ascii]
    exact iff_of_true rfl plain
  · apply iff_of_false _ (not_not.mpr escape)
    intro kept
    have bound := decodeAfter_length_le 0 (unquoteToBytes text)
    have long := congrArg List.length kept
    rw [decodeReplace] at long
    omega

end Unquoting

section Fields
variable {text name value query : List Char}

theorem isAscii_plusToSpace (c : Char) : isAscii (plusToSpace c) = isAscii c := by
  unfold plusToSpace
  split
  next same => rw [same]; rfl
  next => rfl

theorem countP_plusToSpace (text : List Char) :
    (text.map plusToSpace).countP isAscii = text.countP isAscii := by
  rw [List.countP_map]
  congr 1
  funext c
  exact isAscii_plusToSpace c

/-- A value has no plus sign where the query has one, and at most its ASCII characters. -/
theorem unquotePlus_cases (text : List Char) :
    unquotePlus text = text.map plusToSpace ∨
      (unquotePlus text).countP isAscii < text.countP isAscii := by
  rw [← countP_plusToSpace text]
  exact unquote_cases _

theorem countP_unquotePlus_le (text : List Char) :
    (unquotePlus text).countP isAscii ≤ text.countP isAscii := by
  rcases unquotePlus_cases text with same | fewer
  · rw [same, countP_plusToSpace]
  · exact Nat.le_of_lt fewer

theorem partition_append {separator : Char} (absent : separator ∉ name) :
    partition separator (name ++ separator :: value) = some (name, value) := by
  have inside : ∀ c ∈ name, decide (c ≠ separator) = true := by
    intro c member
    apply decide_eq_true
    rintro rfl
    exact absent member
  have outside : decide (separator ≠ separator) = false := decide_eq_false (not_not.mpr rfl)
  obtain ⟨taken, dropped⟩ : (name ++ separator :: value).takeWhile (· ≠ separator) = name ∧
      (name ++ separator :: value).dropWhile (· ≠ separator) = separator :: value :=
    stops_at inside outside
  rw [partition, if_pos (by simp), taken, dropped, List.tail_cons]

theorem partition_eq_some {separator : Char}
    (found : partition separator text = some (name, value)) :
    text = name ++ separator :: value := by
  by_cases member : separator ∈ text
  · obtain ⟨first, rest, rfl, absent⟩ := List.eq_append_cons_of_mem member
    rw [partition_append absent] at found
    cases found
    rfl
  · rw [partition, if_neg member] at found
    contradiction

theorem parseQsl_append (first second : List Char) :
    parseQsl (first ++ '&' :: second) = parseQsl first ++ parseQsl second := by
  rw [parseQsl, List.splitOn_append_cons_self, List.filterMap_append]
  rfl

theorem parseQsl_field {field : List Char} (single : '&' ∉ field) :
    parseQsl field = (parseField field).toList := by
  rw [parseQsl, List.splitOn_eq_singleton single]
  cases parsed : parseField field <;> simp [parsed]

theorem sublist_of_mem_splitOn {field : List Char} {separator : Char}
    (member : field ∈ text.splitOn separator) : field.Sublist text := by
  induction length : text.length using Nat.strong_induction_on generalizing text with
  | _ count ih =>
    subst length
    by_cases split : separator ∈ text
    · obtain ⟨first, rest, rfl, absent⟩ := List.eq_append_cons_of_mem split
      rw [List.splitOn_append_cons_self_of_not_mem absent] at member
      rcases List.mem_cons.mp member with rfl | later
      · exact List.sublist_append_left field _
      · have shorter : rest.length < (first ++ separator :: rest).length := by
          rw [List.length_append, List.length_cons]
          omega
        have inside := ih rest.length shorter later rfl
        exact (inside.trans (List.sublist_cons_self separator rest)).trans
          (List.sublist_append_right first _)
    · rw [List.splitOn_eq_singleton split, List.mem_singleton] at member
      rw [member]

theorem parseField_eq_some {field : List Char} (parsed : parseField field = some (name, value)) :
    ∃ key text, field = key ++ '=' :: text ∧ name = unquotePlus key ∧ value = unquotePlus text := by
  unfold parseField at parsed
  split at parsed
  · contradiction
  · contradiction
  next key text _ halves =>
    cases parsed
    exact ⟨key, text, partition_eq_some halves, rfl, rfl⟩

/-- No value has more ASCII characters than the query. -/
theorem countP_of_mem_parseQsl (member : (name, value) ∈ parseQsl query) :
    value.countP isAscii ≤ query.countP isAscii := by
  obtain ⟨field, among, parsed⟩ := List.mem_filterMap.mp member
  obtain ⟨key, text, rfl, rfl, rfl⟩ := parseField_eq_some parsed
  have inside : text.Sublist query :=
    ((List.sublist_cons_self '=' text).trans (List.sublist_append_right key _)).trans
      (sublist_of_mem_splitOn among)
  exact Nat.le_trans (countP_unquotePlus_le text) inside.countP_le

theorem parseField_of_plain {key : List Char} (plain : unquotePlus key = key)
    (noValue : '=' ∉ key) : parseField (key ++ '=' :: text) =
      if text = [] then none else some (key, unquotePlus text) := by
  rw [parseField, partition_append noValue]
  cases text with
  | nil => rfl
  | cons => simp only [plain, reduceCtorEq, if_false]

/-- The first value under the name of the first field: the whole rest of the query, or
something with fewer ASCII characters. -/
theorem firstValue_cases {key : List Char} (plain : unquotePlus key = key) (single : '&' ∉ key)
    (noValue : '=' ∉ key) (found : firstValue key (key ++ '=' :: text) = some value) :
    ('&' ∉ text ∧ value = unquotePlus text) ∨ value.countP isAscii < text.countP isAscii := by
  by_cases more : '&' ∈ text
  · right
    obtain ⟨first, rest, rfl, absent⟩ := List.eq_append_cons_of_mem more
    have split : key ++ '=' :: (first ++ '&' :: rest) = (key ++ '=' :: first) ++ '&' :: rest := by
      rw [List.append_assoc, List.cons_append]
    have ampersand : isAscii '&' = true := by decide
    rw [firstValue, split, parseQsl_append] at found
    rw [List.countP_append, List.countP_cons_of_pos ampersand]
    obtain ⟨before, after, pairs, _⟩ := List.lookup_eq_some_iff.mp found
    have member : (key, value) ∈ parseQsl (key ++ '=' :: first) ++ parseQsl rest := by
      rw [pairs]
      exact List.mem_append_right _ List.mem_cons_self
    rcases List.mem_append.mp member with here | later
    · have whole : '&' ∉ key ++ '=' :: first := by simp [single, absent]
      rw [parseQsl_field whole, parseField_of_plain plain noValue] at here
      have bound := countP_unquotePlus_le first
      split at here
      · contradiction
      · obtain ⟨_, rfl⟩ : key = key ∧ value = unquotePlus first := by simpa using here
        omega
    · have bound := countP_of_mem_parseQsl later
      omega
  · left
    have whole : '&' ∉ key ++ '=' :: text := by simp [single, more]
    rw [firstValue, parseQsl_field whole, parseField_of_plain plain noValue] at found
    refine ⟨more, ?_⟩
    split at found
    · contradiction
    · simpa using found.symm

/-- A value with as many ASCII characters as the text is all of it, with spaces for its plus
signs. -/
theorem firstValue_whole {key : List Char} (plain : unquotePlus key = key) (single : '&' ∉ key)
    (noValue : '=' ∉ key) (found : firstValue key (key ++ '=' :: text) = some value)
    (count : text.countP isAscii ≤ value.countP isAscii) :
    '&' ∉ text ∧ value = unquotePlus text ∧ value = text.map plusToSpace := by
  rcases firstValue_cases plain single noValue found with ⟨alone, same⟩ | fewer
  · refine ⟨alone, same, ?_⟩
    rcases unquotePlus_cases text with kept | fewer
    · rw [same, kept]
    · rw [← same] at fewer
      exact absurd count (Nat.not_le_of_lt fewer)
  · exact absurd count (Nat.not_le_of_lt fewer)

end Fields

end Sockcan.Url
