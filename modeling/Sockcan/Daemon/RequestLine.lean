import Sockcan.Daemon.Quoting
import Sockcan.Daemon.Subscribe

/-! A subscription on its way from the arguments of the client to those of the handler:
the request line that the client writes, and what the HTTP server makes of it. -/
namespace Sockcan.Daemon
open Text Url

section Server

/-- `c.isspace()`, of the characters of Latin-1. -/
def isSpace (c : Char) : Bool :=
  decide ((9 ≤ c.toNat ∧ c.toNat ≤ 13) ∨ (28 ≤ c.toNat ∧ c.toNat ≤ 32) ∨ c.toNat = 0x85 ∨
    c.toNat = 0xA0)

/-- `text.split()`. -/
def words (text : List Char) : List (List Char) :=
  (text.splitOnP isSpace).filter fun word => !word.isEmpty

/-- `rfile.readline(limit)`: up to the newline, that included. -/
def readline (limit : Nat) (bytes : List UInt8) : List UInt8 :=
  (bytes.takeWhile (· ≠ 10) ++ (bytes.dropWhile (· ≠ 10)).take 1).take limit

/-- A longer request line is refused. -/
def maxLine : Nat := 65536

def isNumber (text : List Char) : Bool :=
  !text.isEmpty && text.all Char.isDigit && decide (text.length ≤ 10)

def number (digits : List Char) : Nat :=
  digits.foldl (fun value digit => 10 * value + (digit.toNat - '0'.toNat)) 0

/-- `HTTP/` and two numbers, of which the first is at most 1. -/
def acceptsVersion (version : List Char) : Bool :=
  "HTTP/".toList.isPrefixOf version && match (version.drop 5).splitOn '.' with
    | [major, minor] => isNumber major && isNumber minor && decide (number major < 2)
    | _ => false

def reduceSlashes (target : List Char) : List Char :=
  if "//".toList.isPrefixOf target then '/' :: target.dropWhile (· = '/') else target

/-- `handle_one_request` and `parse_request`, up to the headers: the target that reaches
`do_GET`. -/
def received (bytes : List UInt8) : Option (List Char) :=
  let line := readline (maxLine + 1) bytes
  if maxLine < line.length then none
  else match words (latin1 line) with
    | [command, target] => if command = "GET".toList then some (reduceSlashes target) else none
    | [command, target, version] =>
      if acceptsVersion version ∧ command = "GET".toList then some (reduceSlashes target) else none
    | _ => none

/-- What `do_GET` takes from the target. -/
def requested (target : List Char) : Request where
  path := String.ofList (urlparse target).1
  channel := (firstValue "channel".toList (urlparse target).2).map String.ofList
  filters := (firstValue "filters".toList (urlparse target).2).map String.ofList

/-- A daemon with the `unquote` of `urllib.parse`. -/
def standardHost (loads : String → Except LoadsError Json) (pid : Nat) : Host where
  unquote text := String.ofList (unquote text.toList)
  loads := loads
  pid := pid

end Server

/-- The filters that a client means: none where it gives an empty list. -/
def meant : Option (List CanFilter) → Option (List Json)
  | none | some [] => none
  | some canFilters => some (canFilters.map Json.ofFilter)

/-- The handler gets the channel and the filters of the client. -/
def ReadsBack (server : Host) (host : String) (port : Nat) (channel : String)
    (filters : Option (List CanFilter)) : Prop :=
  ∃ target, received (encode (upgradeRequest host port channel filters)) = some target ∧
    (requested target).path = "/subscribe" ∧ (requested target).channel = some channel ∧
    server.loadFilters (requested target).filters = .ok (meant filters)

def requestLine (channel : String) (filters : Option (List CanFilter)) : String :=
  "GET /subscribe?" ++ queryParams channel filters ++ " HTTP/1.1" ++ httpDelimiter

/-- No character of the channel means anything in a request line. -/
structure Unspecial (channel : List Char) : Prop where
  ascii : ∀ c ∈ channel, c.toNat < 128
  word : ∀ c ∈ channel, isSpace c = false
  separators : ∀ c ∈ channel, c ≠ '&' ∧ c ≠ '#' ∧ c ≠ '+'
  escapes : ¬ HasEscape channel

section Words
variable {word rest : List Char} {c : Char}

theorem words_append_cons (text : List Char) (space : isSpace c = true) :
    words (text ++ c :: rest) = words text ++ words rest := by
  rw [words, List.splitOnP_append_cons text rest space, List.filter_append]
  rfl

theorem words_word (nonempty : word ≠ []) (plain : ∀ c ∈ word, isSpace c = false) :
    words word = [word] := by
  rw [words, List.splitOnP_eq_singleton plain]
  exact List.filter_eq_self.mpr (by simpa using nonempty)

/-- The first word reaches to the first space. -/
theorem words_append (nonempty : word ≠ []) (plain : ∀ c ∈ word, isSpace c = false)
    (rest : List Char) : ∃ later,
      words (word ++ rest) = (word ++ rest.takeWhile fun c => !isSpace c) :: later := by
  rcases all_or_stops (fun c => !isSpace c) rest with
    all | ⟨front, stop, back, rfl, inside, outside⟩
  · refine ⟨[], ?_⟩
    rw [List.takeWhile_eq_self_iff.mpr all]
    apply words_word (List.append_ne_nil_of_left_ne_nil nonempty rest)
    intro c member
    rcases List.mem_append.mp member with left | right
    · exact plain c left
    · simpa using all c right
  · refine ⟨words back, ?_⟩
    have space : isSpace stop = true := by simpa using outside
    rw [(stops_at inside outside).1, ← List.append_assoc, words_append_cons _ space, words_word]
    · rfl
    · exact List.append_ne_nil_of_left_ne_nil nonempty front
    · intro c member
      rcases List.mem_append.mp member with left | right
      · exact plain c left
      · simpa using inside c right

end Words

section Line
variable {bytes : List UInt8} {target : List Char}

theorem readline_append {front : List UInt8} (inside : (10 : UInt8) ∉ front) (limit : Nat)
    (back : List UInt8) : readline limit (front ++ 10 :: back) = (front ++ [10]).take limit := by
  have before : ∀ byte ∈ front, decide (byte ≠ 10) = true := by
    intro byte member
    apply decide_eq_true
    rintro rfl
    exact inside member
  have ends : decide ((10 : UInt8) ≠ 10) = false := by decide
  obtain ⟨taken, dropped⟩ : (front ++ 10 :: back).takeWhile (· ≠ 10) = front ∧
      (front ++ 10 :: back).dropWhile (· ≠ 10) = 10 :: back := stops_at before ends
  rw [readline, taken, dropped]
  rfl

/-- The words of a line are the first ones of all that was sent. -/
theorem words_readline {limit : Nat} (whole : (readline limit bytes).length < limit) :
    ∃ later, words (latin1 bytes) = words (latin1 (readline limit bytes)) ++ later := by
  by_cases newline : (10 : UInt8) ∈ bytes
  · obtain ⟨front, back, rfl, inside⟩ := List.eq_append_cons_of_mem newline
    refine ⟨words (latin1 back), ?_⟩
    have newline : isSpace (Char.ofNat (10 : UInt8).toNat) = true := by decide
    have ends (rest : List UInt8) :
        words (latin1 (front ++ 10 :: rest)) = words (latin1 front) ++ words (latin1 rest) := by
      rw [latin1_append]
      exact words_append_cons (latin1 front) newline
    rw [readline_append inside, List.length_take] at whole
    have empty : words (latin1 []) = [] := rfl
    rw [readline_append inside, List.take_of_length_le (by omega), ends, ends, empty,
      List.append_nil]
  · refine ⟨[], ?_⟩
    have all : ∀ byte ∈ bytes, decide (byte ≠ 10) = true := by
      intro byte member
      apply decide_eq_true
      rintro rfl
      exact newline member
    have line : readline limit bytes = bytes.take limit := by
      rw [readline, List.takeWhile_eq_self_iff.mpr all, List.dropWhile_eq_nil_iff.mpr all,
        List.take_nil, List.append_nil]
    rw [line, List.length_take] at whole
    rw [line, List.take_of_length_le (by omega), List.append_nil]

theorem received_words (found : received bytes = some target) : ∃ word later,
    words (latin1 bytes) = "GET".toList :: word :: later ∧ target = reduceSlashes word := by
  unfold received at found
  dsimp only at found
  split at found
  · contradiction
  next short =>
    obtain ⟨later, split⟩ := words_readline (Nat.lt_succ_of_le (Nat.le_of_not_lt short))
    split at found
    next command word two =>
      split at found
      next get =>
        refine ⟨word, later, ?_, (Option.some.inj found).symm⟩
        rw [split, two, get]
        rfl
      next => contradiction
    next command word version three =>
      split at found
      next accepted =>
        refine ⟨word, version :: later, ?_, (Option.some.inj found).symm⟩
        rw [split, three, accepted.2]
        rfl
      next => contradiction
    next => contradiction

end Line

section Request
variable {host : String} {port : Nat} {channel : String} {filters : Option (List CanFilter)}

/-- What stands behind the channel in the query. -/
def filtersField : Option (List CanFilter) → List Char
  | none | some [] => []
  | some canFilters => '&' :: ("filters".toList ++ '=' :: (quote (dumps canFilters)).toList)

/-- What ends the target, or its query. -/
def inTarget (c : Char) : Bool := !isSpace c && decide (c ≠ '#')

theorem Unreserved.inTarget {c : Char} (unreserved : Unreserved c) :
    Daemon.inTarget c = true := by
  have fragment : c ≠ '#' := unreserved.apart (by decide)
  have space : isSpace c = false := by
    have bounds := unreserved.bounds
    apply decide_eq_false
    omega
  rw [Daemon.inTarget, space, decide_eq_true fragment]
  rfl

theorem mem_filtersField {c : Char} (member : c ∈ filtersField filters) :
    c = '&' ∨ c = '=' ∨ Unreserved c := by
  have name : ∀ c ∈ "filters".toList, c.isAlphanum = true := forall_mem_of_all (by decide)
  unfold filtersField at member
  split at member
  · exact absurd member List.not_mem_nil
  · exact absurd member List.not_mem_nil
  · simp only [List.mem_cons, List.mem_append] at member
    rcases member with ampersand | inside | equals | quoted
    · exact Or.inl ampersand
    · exact Or.inr (Or.inr (Or.inl (name c inside)))
    · exact Or.inr (Or.inl equals)
    · exact Or.inr (Or.inr (unreserved_quote _ c quoted))

theorem ascii_filtersField : ∀ c ∈ filtersField filters, c.toNat < 128 := by
  intro c member
  rcases mem_filtersField member with rfl | rfl | unreserved
  · decide
  · decide
  · exact unreserved.bounds.2

theorem inTarget_filtersField : ∀ c ∈ filtersField filters, inTarget c = true := by
  intro c member
  rcases mem_filtersField member with rfl | rfl | unreserved
  · decide
  · decide
  · exact unreserved.inTarget

theorem upgradeRequest_line (host : String) (port : Nat) (channel : String)
    (filters : Option (List CanFilter)) : ∃ rest,
      encode (upgradeRequest host port channel filters) =
        encode (requestLine channel filters) ++ rest := by
  have text : upgradeRequest host port channel filters =
      requestLine channel filters ++ httpDelimiter ++ ("Host: " ++ host ++ ":" ++ toString port) ++
        httpDelimiter ++ "Connection: Upgrade" ++ httpDelimiter ++ "Upgrade: socketcan" ++
        httpDelimiter := rfl
  rw [text]
  simp only [encode_append, List.append_assoc]
  exact ⟨_, rfl⟩

theorem toList_requestLine (channel : String) (filters : Option (List CanFilter)) :
    (requestLine channel filters).toList = "GET /subscribe?channel=".toList ++
      (channel.toList ++ (filtersField filters ++ " HTTP/1.1\r\n".toList)) := by
  have field : (queryParams channel filters).toList =
      "channel=".toList ++ (channel.toList ++ filtersField filters) := by
    unfold queryParams filtersField
    split
    · simp only [String.toList_append, String.toList_empty, List.append_nil]
    · simp only [String.toList_append, String.toList_empty, List.append_nil]
    · simp only [String.toList_append, List.append_assoc]
      rfl
  unfold requestLine
  generalize queryParams channel filters = params at field ⊢
  simp only [String.toList_append, field, List.append_assoc]
  rfl

/-- The characters that the server takes the request line for. -/
theorem latin1_requestLine (channel : String) (filters : Option (List CanFilter)) :
    latin1 (encode (requestLine channel filters)) =
      "GET".toList ++ ' ' :: ("/subscribe?channel=".toList ++
        (latin1 (encode channel) ++ (filtersField filters ++ " HTTP/1.1\r\n".toList))) := by
  have ascii : ∀ c ∈ filtersField filters ++ " HTTP/1.1\r\n".toList, c.toNat < 128 := by
    rw [List.forall_mem_append]
    exact ⟨ascii_filtersField, forall_mem_of_all (by decide)⟩
  have front : latin1 ("GET /subscribe?channel=".toList.flatMap String.utf8EncodeChar) =
      "GET".toList ++ ' ' :: "/subscribe?channel=".toList := by
    decide
  rw [encode, toList_requestLine, List.flatMap_append, List.flatMap_append, latin1_append,
    latin1_append, latin1_ascii ascii, front, List.append_assoc]
  rfl

/-- The handler reads the query up to the first space or fragment. -/
theorem requested_query (text : List Char) :
    requested ("/subscribe?channel=".toList ++ text.takeWhile fun c => !isSpace c) =
      ⟨"/subscribe",
        (firstValue "channel".toList
          ("channel".toList ++ '=' :: text.takeWhile inTarget)).map String.ofList,
        (firstValue "filters".toList
          ("channel".toList ++ '=' :: text.takeWhile inTarget)).map String.ofList⟩ := by
  have whole : (text.takeWhile fun c => !isSpace c).takeWhile (fun c => decide (c ≠ '#')) =
      text.takeWhile inTarget := by
    rw [List.takeWhile_takeWhile]
    congr 1
    funext c
    simp [inTarget, Bool.and_comm]
  have parsed : urlparse ("/subscribe?channel=".toList ++ text.takeWhile fun c => !isSpace c) =
      ("/subscribe".toList, "channel".toList ++ '=' :: text.takeWhile inTarget) := by
    have url : ("/subscribe?channel=".toList ++ text.takeWhile fun c => !isSpace c).takeWhile
          (fun c => decide (c ≠ '#')) =
        "/subscribe".toList ++ '?' :: ("channel".toList ++ '=' :: text.takeWhile inTarget) := by
      rw [List.takeWhile_append_of_pos (forall_mem_of_all (by decide)), whole]
      rfl
    have halves : ("/subscribe".toList ++
            '?' :: ("channel".toList ++ '=' :: text.takeWhile inTarget)).takeWhile
          (fun c => decide (c ≠ '?')) = "/subscribe".toList ∧
        ("/subscribe".toList ++
            '?' :: ("channel".toList ++ '=' :: text.takeWhile inTarget)).dropWhile
          (fun c => decide (c ≠ '?')) =
            '?' :: ("channel".toList ++ '=' :: text.takeWhile inTarget) :=
      stops_at (forall_mem_of_all (by decide)) (by decide)
    unfold urlparse
    dsimp only
    rw [url, halves.1, halves.2]
    rfl
  rw [requested, parsed]
  rfl

/-- The target of a request that is received. -/
theorem received_request {target : List Char}
    (found : received (encode (upgradeRequest host port channel filters)) = some target) :
    ∃ rest, target = "/subscribe?channel=".toList ++
      (latin1 (encode channel) ++ (filtersField filters ++ ' ' :: rest)).takeWhile
        fun c => !isSpace c := by
  obtain ⟨rest, sent⟩ := upgradeRequest_line host port channel filters
  obtain ⟨word, later, split, rfl⟩ := received_words found
  have version : " HTTP/1.1\r\n".toList = ' ' :: "HTTP/1.1\r\n".toList := by decide
  refine ⟨"HTTP/1.1\r\n".toList ++ latin1 rest, ?_⟩
  rw [sent, latin1_append, latin1_requestLine, version] at split
  simp only [List.append_assoc, List.cons_append] at split
  obtain ⟨others, first⟩ := words_append (List.cons_ne_nil '/' "subscribe?channel=".toList)
    (forall_mem_of_all (by decide)) (latin1 (encode channel) ++ (filtersField filters ++
      ' ' :: ("HTTP/1.1\r\n".toList ++ latin1 rest)))
  have target : '/' :: "subscribe?channel=".toList = "/subscribe?channel=".toList := by decide
  rw [words_append_cons _ (by decide), words_word (by decide) (forall_mem_of_all (by decide)),
    ← target, first] at split
  obtain rfl := (List.cons.inj (List.cons.inj split).2).1
  rw [← target]
  rfl

/-- The value that the handler takes for the channel. -/
theorem ReadsBack.value {server : Host} (back : ReadsBack server host port channel filters) :
    ∃ rest, firstValue "channel".toList ("channel".toList ++ '=' ::
      (latin1 (encode channel) ++ (filtersField filters ++ ' ' :: rest)).takeWhile inTarget) =
        some channel.toList := by
  obtain ⟨target, found, _, read, _⟩ := back
  obtain ⟨rest, rfl⟩ := received_request found
  rw [requested_query] at read
  obtain ⟨value, first, rfl⟩ := Option.map_eq_some_iff.mp read
  exact ⟨rest, by rw [first, String.toList_ofList]⟩

end Request

section Channel
variable {channel : String} {filters : Option (List CanFilter)} {front back : List Char}
  {stop : Char}

/-- The channel's ASCII characters are those of its bytes. -/
theorem countP_latin1_encode (text : List Char) :
    (latin1 (text.flatMap String.utf8EncodeChar)).countP isAscii = text.countP isAscii := by
  induction text with
  | nil => rfl
  | cons c rest ih =>
    rw [List.flatMap_cons, latin1_append, List.countP_append, ih]
    by_cases ascii : c.toNat < 128
    · rw [latin1_char ascii, ← List.countP_append]
      rfl
    · have none : (latin1 (String.utf8EncodeChar c)).countP isAscii = 0 := by
        rw [List.countP_eq_zero]
        intro other member
        obtain ⟨byte, among, value⟩ := toNat_of_mem_latin1 member
        have wide := (encode_char_wide (Nat.le_of_not_lt ascii)).2 byte among
        simp only [isAscii, decide_eq_true_eq, value]
        omega
      have skipped : ¬ isAscii c = true := by simpa [isAscii] using ascii
      rw [none, List.countP_cons_of_neg skipped, Nat.zero_add]

theorem length_le_latin1_encode (text : List Char) :
    text.length ≤ (latin1 (text.flatMap String.utf8EncodeChar)).length := by
  induction text with
  | nil => exact Nat.le_refl 0
  | cons c rest ih =>
    have first : 1 ≤ (latin1 (String.utf8EncodeChar c)).length := by
      rw [latin1, List.length_map, String.length_utf8EncodeChar]
      exact Char.utf8Size_pos c
    rw [List.flatMap_cons, latin1_append, List.length_append, List.length_cons]
    omega

/-- A character beyond ASCII has more bytes than one. -/
theorem ascii_of_length {text : List Char}
    (same : (latin1 (text.flatMap String.utf8EncodeChar)).length = text.length) :
    ∀ c ∈ text, c.toNat < 128 := by
  induction text with
  | nil => exact nofun
  | cons c rest ih =>
    have later := length_le_latin1_encode rest
    rw [List.flatMap_cons, latin1_append, List.length_append, List.length_cons] at same
    rw [List.forall_mem_cons]
    by_cases ascii : c.toNat < 128
    · rw [latin1_char ascii, List.length_singleton] at same
      exact ⟨ascii, ih (by omega)⟩
    · have wide : 2 ≤ (latin1 (String.utf8EncodeChar c)).length := by
        rw [latin1, List.length_map]
        exact (encode_char_wide (Nat.le_of_not_lt ascii)).1
      omega

/-- The bytes of text that Latin-1 has, beyond ASCII: a first byte, or one that follows. -/
theorem wide_of_mem {text : List Char} {c : Char} (latin : ∀ c ∈ text, c.toNat < 256)
    (member : c ∈ latin1 (text.flatMap String.utf8EncodeChar)) (wide : 128 ≤ c.toNat) :
    ∃ source ∈ text, 128 ≤ source.toNat ∧
      (c.toNat = source.toNat / 64 + 192 ∨ c.toNat = source.toNat % 64 + 128) := by
  obtain ⟨byte, among, value⟩ := toNat_of_mem_latin1 member
  obtain ⟨source, inside, encoded⟩ := List.mem_flatMap.mp among
  have narrow := latin source inside
  have beyond : 128 ≤ source.toNat := by
    by_contra ascii
    have small : source.toNat < 128 := Nat.lt_of_not_le ascii
    rw [encode_char small, List.mem_singleton] at encoded
    rw [encoded, UInt8.toNat_ofNat_of_lt' (Nat.lt_trans small (by decide))] at value
    omega
  refine ⟨source, inside, beyond, ?_⟩
  rw [encode_char_latin beyond narrow, List.mem_cons, List.mem_singleton] at encoded
  rcases encoded with rfl | rfl
  · rw [UInt8.toNat_ofNat_of_lt' (show _ < 256 by omega)] at value
    exact Or.inl value
  · rw [UInt8.toNat_ofNat_of_lt' (show _ < 256 by omega)] at value
    exact Or.inr value

theorem mem_of_mem_plusToSpace {text : List Char} {c : Char} (member : c ∈ text.map plusToSpace)
    (wide : 128 ≤ c.toNat) : c ∈ text := by
  obtain ⟨source, among, rfl⟩ := List.mem_map.mp member
  unfold plusToSpace at wide ⊢
  split at wide
  · exact absurd wide (by decide)
  next other => rwa [if_neg other]

theorem plus_not_mem (text : List Char) : '+' ∉ text.map plusToSpace := by
  intro member
  obtain ⟨source, _, plus⟩ := List.mem_map.mp member
  unfold plusToSpace at plus
  split at plus
  · exact absurd plus (by decide)
  next other => exact other plus

/-- What is read as the whole channel does not end at a space or a fragment. -/
theorem not_stopped (split : latin1 (encode channel) = front ++ stop :: back)
    (inside : ∀ c ∈ front, inTarget c = true) (outside : inTarget stop = false) :
    firstValue "channel".toList ("channel".toList ++ '=' :: front) ≠ some channel.toList := by
  intro read
  have count : channel.toList.countP isAscii =
      front.countP isAscii + (stop :: back).countP isAscii := by
    rw [← countP_latin1_encode, ← List.countP_append, ← split]
    rfl
  obtain ⟨_, _, same⟩ : '&' ∉ front ∧ channel.toList = unquotePlus front ∧
      channel.toList = front.map plusToSpace :=
    firstValue_whole (by decide) (by decide) (by decide) read (by omega)
  have wide : 128 ≤ stop.toNat := by
    by_contra ascii
    have counted : isAscii stop = true := decide_eq_true (Nat.lt_of_not_le ascii)
    rw [same, countP_plusToSpace, List.countP_cons_of_pos counted] at count
    omega
  have before {c : Char} (member : c ∈ channel.toList) (beyond : 128 ≤ c.toNat) : c ∈ front := by
    rw [same] at member
    exact mem_of_mem_plusToSpace member beyond
  have sent {c : Char} (member : c ∈ front) : c ∈ latin1 (encode channel) := by
    rw [split]
    exact List.mem_append_left _ member
  have latin : ∀ c ∈ channel.toList, c.toNat < 256 := by
    intro c member
    by_cases beyond : 128 ≤ c.toNat
    · obtain ⟨byte, _, value⟩ := toNat_of_mem_latin1 (sent (before member beyond))
      have bound := byte.toNat_lt
      omega
    · omega
  have space : stop.toNat = 0x85 ∨ stop.toNat = 0xA0 := by
    have fragment : stop ≠ '#' := by
      rintro rfl
      exact absurd wide (by decide)
    simp only [inTarget, isSpace, fragment, Bool.and_eq_false_iff, Bool.not_eq_false',
      decide_eq_true_eq, decide_eq_false_iff_not, ne_eq, not_false_eq_true, not_true_eq_false,
      or_false] at outside
    omega
  -- The space is the second byte of a character, whose first byte stands in front of it.
  have member : stop ∈ latin1 (encode channel) := by
    rw [split]
    exact List.mem_append_right _ List.mem_cons_self
  obtain ⟨source, among, beyond, second⟩ := wide_of_mem latin member wide
  have narrow := latin source among
  have unspaced := inside source (before among beyond)
  obtain ⟨other, among', _, first⟩ := wide_of_mem latin (sent (before among beyond)) beyond
  have narrow' := latin other among'
  simp only [inTarget, isSpace, Bool.and_eq_true, Bool.not_eq_true', decide_eq_false_iff_not,
    not_or] at unspaced
  omega

/-- The parameter with the filters, once it is unquoted. -/
theorem parseQsl_filters (canFilters : List CanFilter) :
    parseQsl ("filters".toList ++ '=' :: (quote (dumps canFilters)).toList) =
      [("filters".toList, (dumps canFilters).toList)] := by
  have name : ∀ c ∈ "filters".toList ++ ['='], c ≠ '&' := forall_mem_of_all (by decide)
  have single : '&' ∉ "filters".toList ++ '=' :: (quote (dumps canFilters)).toList := by
    rw [List.append_cons, List.mem_append]
    rintro (member | member)
    · exact name _ member rfl
    · exact (unreserved_quote _ _ member).apart (by decide) rfl
  have read : unquotePlus (quote (dumps canFilters)).toList = (dumps canFilters).toList :=
    unquotePlus_quote fun c member => (plain_dumps canFilters c member).1
  have nonempty : (quote (dumps canFilters)).toList ≠ [] := by
    intro empty
    have start := head_dumps canFilters
    rw [← read, empty] at start
    exact absurd start (by decide)
  rw [parseQsl_field single, parseField_of_plain (by decide) (by decide), if_neg nonempty, read]
  rfl

/-- The filters add nothing to what is read for the channel. -/
theorem firstValue_filtersField (filters : Option (List CanFilter)) (text : List Char) :
    firstValue "channel".toList ("channel".toList ++ '=' :: (text ++ filtersField filters)) =
      firstValue "channel".toList ("channel".toList ++ '=' :: text) := by
  unfold filtersField
  split
  · rw [List.append_nil]
  · rw [List.append_nil]
  next canFilters _ =>
    have split : "channel".toList ++ '=' :: (text ++
        '&' :: ("filters".toList ++ '=' :: (quote (dumps canFilters)).toList)) =
        ("channel".toList ++ '=' :: text) ++
          '&' :: ("filters".toList ++ '=' :: (quote (dumps canFilters)).toList) := by
      simp only [List.append_assoc, List.cons_append]
    have absent : List.lookup "channel".toList [("filters".toList, (dumps canFilters).toList)] =
        none := rfl
    rw [split, firstValue, parseQsl_append, parseQsl_filters, List.lookup_append, absent,
      Option.or_none, firstValue]

/-- A channel that is read back. -/
theorem unspecial_of_value {rest : List Char} (read : firstValue "channel".toList
    ("channel".toList ++ '=' :: (latin1 (encode channel) ++
      (filtersField filters ++ ' ' :: rest)).takeWhile inTarget) = some channel.toList) :
    Unspecial channel.toList := by
  rcases all_or_stops inTarget (latin1 (encode channel)) with
    all | ⟨front, stop, back, split, inside, outside⟩
  · have whole : (latin1 (encode channel) ++ (filtersField filters ++ ' ' :: rest)).takeWhile
        inTarget = latin1 (encode channel) ++ filtersField filters := by
      rw [← List.append_assoc]
      refine (stops_at ?_ (by decide)).1
      rw [List.forall_mem_append]
      exact ⟨all, inTarget_filtersField⟩
    rw [whole, firstValue_filtersField] at read
    have count : (latin1 (encode channel)).countP isAscii = channel.toList.countP isAscii :=
      countP_latin1_encode channel.toList
    obtain ⟨single, value, kept⟩ := firstValue_whole (by decide) (by decide) (by decide) read
      (Nat.le_of_eq count)
    have ascii : ∀ c ∈ channel.toList, c.toNat < 128 := by
      apply ascii_of_length
      have length := congrArg List.length kept
      rw [List.length_map] at length
      exact length.symm
    have same : latin1 (encode channel) = channel.toList := latin1_ascii ascii
    rw [same] at kept value single all
    have target {c : Char} (member : c ∈ channel.toList) : isSpace c = false ∧ c ≠ '#' := by
      simpa [inTarget] using all c member
    refine ⟨ascii, fun c member => (target member).1, ?_, ?_⟩
    · intro c member
      refine ⟨?_, (target member).2, ?_⟩
      · rintro rfl
        exact single member
      · rintro rfl
        rw [kept] at member
        exact plus_not_mem _ member
    · rw [← unquote_eq_self_iff ascii]
      rw [unquotePlus, ← kept] at value
      exact value.symm
  · exfalso
    refine not_stopped split inside outside ?_
    rw [← read, split, List.append_assoc, List.cons_append, (stops_at inside outside).1]

end Channel

section Plain
variable {channel : String} {filters : Option (List CanFilter)}

theorem Unspecial.unquotePlus {text : List Char} (unspecial : Unspecial text) :
    Url.unquotePlus text = text := by
  have kept : text.map plusToSpace = text := by
    calc text.map plusToSpace = text.map id := by
          apply List.map_congr_left
          intro c member
          exact if_neg (unspecial.separators c member).2.2
      _ = text := List.map_id text
  rw [Url.unquotePlus, kept]
  exact (unquote_eq_self_iff unspecial.ascii).mpr unspecial.escapes

theorem Unspecial.inTarget {text : List Char} (unspecial : Unspecial text) :
    ∀ c ∈ text, Daemon.inTarget c = true := by
  intro c member
  rw [Daemon.inTarget, unspecial.word c member,
    decide_eq_true (unspecial.separators c member).2.1]
  rfl

/-- The request line has one newline, which ends it. -/
theorem encode_requestLine (unspecial : Unspecial channel.toList) : ∃ front,
    encode (requestLine channel filters) = front ++ [10] ∧ (10 : UInt8) ∉ front := by
  have ascii : ∀ c ∈ "GET /subscribe?channel=".toList ++
      (channel.toList ++ (filtersField filters ++ " HTTP/1.1\r".toList)),
      c.toNat < 128 ∧ c.toNat ≠ 10 := by
    have start : ∀ c ∈ "GET /subscribe?channel=".toList, c.toNat < 128 ∧ c.toNat ≠ 10 :=
      forall_mem_of_all (by decide)
    have version : ∀ c ∈ " HTTP/1.1\r".toList, c.toNat < 128 ∧ c.toNat ≠ 10 :=
      forall_mem_of_all (by decide)
    intro c member
    simp only [List.mem_append] at member
    rcases member with front | inside | field | back
    · exact start c front
    · refine ⟨unspecial.ascii c inside, ?_⟩
      have word := unspecial.word c inside
      simp only [isSpace, decide_eq_false_iff_not, not_or] at word
      omega
    · rcases mem_filtersField field with rfl | rfl | unreserved
      · decide
      · decide
      · have bounds := unreserved.bounds
        omega
    · exact version c back
  refine ⟨("GET /subscribe?channel=".toList ++ (channel.toList ++
    (filtersField filters ++ " HTTP/1.1\r".toList))).map fun c => UInt8.ofNat c.toNat, ?_, ?_⟩
  · have version : " HTTP/1.1\r\n".toList = " HTTP/1.1\r".toList ++ ['\n'] := by decide
    rw [encode, toList_requestLine, version, ← List.append_assoc (filtersField filters),
      ← List.append_assoc channel.toList, ← List.append_assoc "GET /subscribe?channel=".toList,
      List.flatMap_append, encode_ascii fun c member => (ascii c member).1]
    rfl
  · intro member
    obtain ⟨c, among, newline⟩ := List.mem_map.mp member
    obtain ⟨small, other⟩ := ascii c among
    have value := congrArg UInt8.toNat newline
    rw [UInt8.toNat_ofNat_of_lt' (Nat.lt_trans small (by decide))] at value
    exact other value

/-- The target is the second word of the line. -/
theorem words_requestLine (unspecial : Unspecial channel.toList) :
    words (latin1 (encode (requestLine channel filters))) = ["GET".toList,
      "/subscribe?channel=".toList ++ (channel.toList ++ filtersField filters),
      "HTTP/1.1".toList] := by
  have same : latin1 (encode channel) = channel.toList := latin1_ascii unspecial.ascii
  have version : " HTTP/1.1\r\n".toList = ' ' :: ("HTTP/1.1".toList ++ '\r' :: ['\n']) := by
    decide
  have target : ∀ c ∈ "/subscribe?channel=".toList ++
      (channel.toList ++ filtersField filters), isSpace c = false := by
    have start : ∀ c ∈ "/subscribe?channel=".toList, isSpace c = false :=
      forall_mem_of_all (by decide)
    intro c member
    simp only [List.mem_append] at member
    rcases member with front | among | field
    · exact start c front
    · exact unspecial.word c among
    · have included := inTarget_filtersField c field
      simp only [inTarget, Bool.and_eq_true, Bool.not_eq_true'] at included
      exact included.1
  rw [latin1_requestLine, same, version, words_append_cons _ (by decide),
    ← List.append_assoc channel.toList, ← List.append_assoc "/subscribe?channel=".toList,
    words_append_cons _ (by decide), words_append_cons _ (by decide),
    words_word (List.append_ne_nil_of_left_ne_nil (by decide) _) target]
  rfl

/-- What is received of a request whose channel means nothing in it. -/
theorem received_unspecial (host : String) (port : Nat) (unspecial : Unspecial channel.toList) :
    received (encode (upgradeRequest host port channel filters)) =
      if (encode (requestLine channel filters)).length ≤ maxLine then
        some ("/subscribe?channel=".toList ++ (channel.toList ++ filtersField filters))
      else none := by
  obtain ⟨rest, sent⟩ := upgradeRequest_line host port channel filters
  obtain ⟨front, line, inside⟩ := encode_requestLine unspecial
  have read : readline (maxLine + 1) (encode (upgradeRequest host port channel filters)) =
      (encode (requestLine channel filters)).take (maxLine + 1) := by
    rw [sent, line, List.append_assoc, List.singleton_append]
    exact readline_append inside _ rest
  unfold received
  dsimp only
  rw [read, List.length_take]
  split
  next long => rw [if_neg (by omega)]
  next short =>
    have bound : (encode (requestLine channel filters)).length ≤ maxLine := by omega
    have plain : reduceSlashes ("/subscribe?channel=".toList ++
        (channel.toList ++ filtersField filters)) =
          "/subscribe?channel=".toList ++ (channel.toList ++ filtersField filters) := rfl
    have accepted : acceptsVersion "HTTP/1.1".toList = true := by decide
    rw [if_pos bound, List.take_of_length_le (by omega), words_requestLine unspecial]
    simp only [accepted, plain, and_self, if_true]

theorem parseQsl_channel (unspecial : Unspecial channel.toList) (nonempty : channel ≠ "") :
    parseQsl ("channel".toList ++ '=' :: channel.toList) =
      [("channel".toList, channel.toList)] := by
  have single : '&' ∉ "channel".toList ++ '=' :: channel.toList := by
    have name : ∀ c ∈ "channel".toList ++ ['='], c ≠ '&' := forall_mem_of_all (by decide)
    rw [List.append_cons, List.mem_append]
    rintro (member | member)
    · exact name _ member rfl
    · exact (unspecial.separators _ member).1 rfl
  have value : channel.toList ≠ [] := fun empty => nonempty (String.toList_eq_nil_iff.mp empty)
  rw [parseQsl_field single, parseField_of_plain (by decide) (by decide), if_neg value,
    unspecial.unquotePlus]
  rfl

/-- The filters that the client sends, if it sends any. -/
def sentFilters : Option (List CanFilter) → Option String
  | none | some [] => none
  | some canFilters => some (dumps canFilters)

/-- What the handler takes from the query. -/
theorem requested_unspecial (unspecial : Unspecial channel.toList) (nonempty : channel ≠ "") :
    requested ("/subscribe?channel=".toList ++ (channel.toList ++ filtersField filters)) =
      ⟨"/subscribe", some channel, sentFilters filters⟩ := by
  have target : ∀ c ∈ channel.toList ++ filtersField filters, inTarget c = true := by
    rw [List.forall_mem_append]
    exact ⟨unspecial.inTarget, inTarget_filtersField⟩
  have word : ∀ c ∈ channel.toList ++ filtersField filters, (!isSpace c) = true := by
    intro c member
    have both := target c member
    rw [inTarget, Bool.and_eq_true] at both
    exact both.1
  have query := requested_query (channel.toList ++ filtersField filters)
  rw [List.takeWhile_eq_self_iff.mpr word, List.takeWhile_eq_self_iff.mpr target] at query
  have read : firstValue "channel".toList ("channel".toList ++ '=' :: channel.toList) =
      some channel.toList := by
    rw [firstValue, parseQsl_channel unspecial nonempty]
    exact List.lookup_cons_self
  have filtered : firstValue "filters".toList ("channel".toList ++
      '=' :: (channel.toList ++ filtersField filters)) =
        (sentFilters filters).map String.toList := by
    have absent : List.lookup "filters".toList [("channel".toList, channel.toList)] = none := rfl
    unfold filtersField sentFilters
    split
    · rw [List.append_nil, firstValue, parseQsl_channel unspecial nonempty, absent]
      rfl
    · rw [List.append_nil, firstValue, parseQsl_channel unspecial nonempty, absent]
      rfl
    next canFilters _ =>
      rw [← List.cons_append, ← List.append_assoc, firstValue, parseQsl_append,
        parseQsl_channel unspecial nonempty, parseQsl_filters, List.lookup_append, absent,
        Option.none_or]
      exact List.lookup_cons_self
  rw [query, firstValue_filtersField, read, filtered, Option.map_some, String.ofList_toList,
    Option.map_map]
  congr
  cases sentFilters filters with
  | none => rfl
  | some text => exact congrArg some String.ofList_toList

theorem loadFilters_text {server : Host} {text : String} {elements : List Json}
    (nonempty : text ≠ "") (read : server.unquote text = text)
    (loaded : server.loads text = .ok (.list elements)) :
    server.loadFilters (some text) = .ok (some elements) := by
  simp only [Host.loadFilters, read, loaded]

/-- The client's channel and filters are read back when no character of the channel means
anything in a request line, or in a query, and the request line is not too long. -/
theorem readsBack_iff (loads : String → Except LoadsError Json) (pid : Nat) (host : String)
    (port : Nat) (channel : String) (filters : Option (List CanFilter)) (nonempty : channel ≠ "")
    (inverse : ∀ canFilters, filters = some canFilters →
      loads (dumps canFilters) = .ok (.list (canFilters.map Json.ofFilter))) :
    ReadsBack (standardHost loads pid) host port channel filters ↔
      Unspecial channel.toList ∧ (encode (requestLine channel filters)).length ≤ maxLine := by
  constructor
  · intro back
    obtain ⟨rest, read⟩ := back.value
    have unspecial := unspecial_of_value read
    refine ⟨unspecial, ?_⟩
    obtain ⟨target, found, _⟩ := back
    rw [received_unspecial host port unspecial] at found
    by_contra long
    rw [if_neg long] at found
    exact absurd found.symm (Option.some_ne_none target)
  · rintro ⟨unspecial, bound⟩
    refine ⟨_, (received_unspecial host port unspecial).trans (if_pos bound), ?_⟩
    rw [requested_unspecial unspecial nonempty]
    refine ⟨rfl, rfl, ?_⟩
    cases filters with
    | none => rfl
    | some canFilters =>
      cases canFilters with
      | nil => rfl
      | cons canFilter rest =>
        apply loadFilters_text
        · intro empty
          have start := head_dumps (canFilter :: rest)
          rw [empty] at start
          exact absurd start.symm (Option.some_ne_none '[')
        · have plain : unquote (dumps (canFilter :: rest)).toList =
              (dumps (canFilter :: rest)).toList := (plain_dumps (canFilter :: rest)).unquote
          exact (congrArg String.ofList plain).trans String.ofList_toList
        · exact inverse (canFilter :: rest) rfl

end Plain

theorem readsBack_iff_can0 :
    ReadsBack (standardHost (fun _ => .ok (.list [Json.ofFilter ⟨0x123, 0x7FF, none⟩])) 1)
      "127.0.0.1" 8000 "can0" (some [⟨0x123, 0x7FF, none⟩]) := by
  have inverse : ∀ canFilters, some [(⟨0x123, 0x7FF, none⟩ : CanFilter)] = some canFilters →
      Except.ok (.list [Json.ofFilter ⟨0x123, 0x7FF, none⟩]) =
        (Except.ok (.list (canFilters.map Json.ofFilter)) : Except LoadsError Json) := by
    rintro _ ⟨⟩
    rfl
  have unspecial : Unspecial "can0".toList :=
    ⟨forall_mem_of_all (by decide), forall_mem_of_all (by decide),
      forall_mem_of_all (by decide), not_hasEscape (by decide)⟩
  exact (readsBack_iff _ 1 "127.0.0.1" 8000 "can0" _ (by decide) inverse).mpr
    ⟨unspecial, by decide +kernel⟩

/-- A plus sign is read as a space: the client would get another channel. -/
theorem plus_read_as_space :
    (received (encode (upgradeRequest "127.0.0.1" 8000 "vcan+1" none))).map requested =
        some ⟨"/subscribe", some "vcan 1", none⟩ ∧
      ¬ ReadsBack (standardHost (fun _ => .error (.valueError "")) 1) "127.0.0.1" 8000 "vcan+1"
        none := by
  have read : (received (encode (upgradeRequest "127.0.0.1" 8000 "vcan+1" none))).map requested =
      some ⟨"/subscribe", some "vcan 1", none⟩ := by
    decide +kernel
  refine ⟨read, ?_⟩
  rintro ⟨target, found, _, same, _⟩
  rw [found, Option.map_some, Option.some.injEq] at read
  rw [read] at same
  exact absurd same (by decide)

end Sockcan.Daemon
