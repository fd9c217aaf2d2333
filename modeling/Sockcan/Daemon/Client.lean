import Sockcan.Filters
import Sockcan.Protocol.Shift

/-! How a client subscribes: the upgrade request that it sends, and the one read with
which it takes the response off the connection. -/
namespace Sockcan.Daemon
open Protocol Text

def httpDelimiter : String := "\r\n"

/-- One filter as `json.dumps` writes it. -/
def dumpsFilter (canFilter : CanFilter) : String :=
  let extended := match canFilter.extended with
    | none => ""
    | some extended => ", \"extended\": " ++ if extended then "true" else "false"
  "\x7b\"can_id\": " ++ toString canFilter.canId ++
    ", \"can_mask\": " ++ toString canFilter.canMask ++ extended ++ "\x7d"

def dumps (filters : List CanFilter) : String :=
  "[" ++ String.intercalate ", " (filters.map dumpsFilter) ++ "]"

def hexDigits : List Char :=
  ['0', '1', '2', '3', '4', '5', '6', '7', '8', '9', 'A', 'B', 'C', 'D', 'E', 'F']

/-- A byte as `urllib.parse.quote` writes it: letters, digits and `_.-~/` stand for
themselves. -/
def quoteByte (byte : UInt8) : List Char :=
  let c := Char.ofNat byte.toNat
  if c.isAlphanum || ['_', '.', '-', '~', '/'].contains c then [c]
  else ['%', hexDigits.getD (byte.toNat / 16) '0', hexDigits.getD (byte.toNat % 16) '0']

def quote (text : String) : String := String.ofList ((encode text).flatMap quoteByte)

def queryParams (channel : String) (filters : Option (List CanFilter)) : String :=
  "channel=" ++ channel ++ match filters with
    | none | some [] => ""
    | some canFilters => "&filters=" ++ quote (dumps canFilters)

/-- The lines are joined by the delimiter, and the first one ends in a delimiter of its
own. -/
def upgradeRequest (host : String) (port : Nat) (channel : String)
    (filters : Option (List CanFilter)) : String :=
  String.intercalate httpDelimiter
    ["GET /subscribe?" ++ queryParams channel filters ++ " HTTP/1.1" ++ httpDelimiter,
      "Host: " ++ host ++ ":" ++ toString port, "Connection: Upgrade", "Upgrade: socketcan"] ++
    httpDelimiter

inductive ConnectError where
  | receiving (strerror : String)
  | undecodable
  | refused (response : String)
  deriving DecidableEq, Repr

/-- The bufsize of the read that clears the response. -/
def responseSize : Nat := 4096

/-- `connect_socketcan_client` on a connected socket: the bytes it sends, and the socket
as it returns it. The response is decoded for the log before it is looked at. -/
def connectSocketcanClient (network : Nat → RecvCall) (host : String) (port : Nat)
    (channel : String) (filters : Option (List CanFilter)) (sock : Inbound) :
    List UInt8 × Except ConnectError Inbound :=
  let request := encode (upgradeRequest host port channel filters)
  match sock.recv network responseSize with
  | .error strerror => (request, .error (.receiving strerror))
  | .ok (response, sock) => match decode response with
    | none => (request, .error .undecodable)
    | some text =>
      if isIn (encode "101 Switching Protocols") response then (request, .ok sock)
      else (request, .error (.refused text))

/-- A line's text, without its end. -/
def Printable (text : String) : Prop := ∀ c ∈ text.toList, 32 ≤ c.toNat ∧ c.toNat < 127

instance (text : String) : Decidable (Printable text) :=
  List.decidableBAll (fun c : Char => 32 ≤ c.toNat ∧ c.toNat < 127) text.toList

theorem Printable.append {first second : String} (left : Printable first)
    (right : Printable second) : Printable (first ++ second) := by
  intro c member
  rw [String.toList_append] at member
  rcases List.mem_append.mp member with inside | inside
  · exact left c inside
  · exact right c inside

theorem Printable.isAscii {text : String} (printable : Printable text) : IsAscii (encode text) := by
  apply isAscii_encode
  intro c member
  have bounds := printable c member
  omega

/-- The head of a response that grants the upgrade: the status line of the HTTP server,
header lines of printable text, and a blank line. -/
structure ResponseHead where
  headers : List String
  printable : ∀ header ∈ headers, Printable header
  nonempty : ∀ header ∈ headers, header ≠ ""

def statusLine : String := "HTTP/1.0 101 Switching Protocols"

def ResponseHead.bytes (head : ResponseHead) : List UInt8 :=
  encode (statusLine ++ httpDelimiter) ++
    head.headers.flatMap (fun header => encode (header ++ httpDelimiter)) ++ encode httpDelimiter

/-- The head that `do_GET` sends; the HTTP server adds its version and the date. -/
def upgradeResponse (version date : String) (printable : Printable version ∧ Printable date) :
    ResponseHead where
  headers :=
    ["Server: " ++ version, "Date: " ++ date, "Upgrade: socketcan", "Connection: Upgrade"]
  printable := by
    have server : Printable "Server: " := by decide
    have day : Printable "Date: " := by decide
    simp only [List.forall_mem_cons, server.append printable.1, day.append printable.2, true_and]
    decide
  nonempty := by
    simp [String.append_eq_empty_iff]

/-- How far the one read that takes the response can reach. -/
def firstRead (sizes : Nat → Nat) : Nat := max 1 (min (sizes 0) responseSize)

variable {sizes : Nat → Nat} {host : String} {port : Nat} {channel : String}
  {filters : Option (List CanFilter)} {bytes : List UInt8} {sock : Inbound} {head : ResponseHead}

/-- The client returns the socket when what it read is text and grants the upgrade. -/
theorem connectSocketcanClient_ok_iff :
    (connectSocketcanClient (chunks sizes) host port channel filters ⟨bytes, 0⟩).2 = .ok sock ↔
      (decode (bytes.take (firstRead sizes))).isSome ∧
        isIn (encode "101 Switching Protocols") (bytes.take (firstRead sizes)) ∧
        sock = ⟨bytes.drop (firstRead sizes), 1⟩ := by
  have read : Inbound.recv (chunks sizes) ⟨bytes, 0⟩ responseSize =
      .ok (bytes.take (firstRead sizes), ⟨bytes.drop (firstRead sizes), 1⟩) := rfl
  simp only [connectSocketcanClient, read]
  cases decode (bytes.take (firstRead sizes)) with
  | none => simp
  | some text =>
    by_cases granted : isIn (encode "101 Switching Protocols") (bytes.take (firstRead sizes))
    · simp [granted, eq_comm]
    · simp [granted]

theorem ResponseHead.isAscii (head : ResponseHead) : IsAscii head.bytes := by
  apply IsAscii.append
  · apply IsAscii.append (by decide)
    intro byte member
    obtain ⟨header, among, inside⟩ := List.mem_flatMap.mp member
    have line : IsAscii (encode header ++ encode httpDelimiter) :=
      (head.printable header among).isAscii.append (by decide)
    rw [encode_append] at inside
    exact line byte inside
  · decide

theorem ResponseHead.bytes_eq (head : ResponseHead) :
    ∃ rest, head.bytes = encode statusLine ++ rest ∧ 4 ≤ rest.length := by
  refine ⟨encode httpDelimiter ++
    (head.headers.flatMap (fun header => encode (header ++ httpDelimiter)) ++
      encode httpDelimiter), ?_, ?_⟩
  · simp only [ResponseHead.bytes, encode_append, List.append_assoc]
  · have two : (encode httpDelimiter).length = 2 := by decide
    simp only [List.length_append, two]
    omega

/-- The status is found once the whole status line was read. -/
theorem ResponseHead.granted_iff (head : ResponseHead) (count : Nat) :
    isIn (encode "101 Switching Protocols") (head.bytes.take count) ↔
      (encode statusLine).length ≤ count := by
  obtain ⟨rest, split, _⟩ := head.bytes_eq
  constructor
  · intro found
    by_contra early
    have within : head.bytes.take count <+: (encode statusLine).take 31 := by
      have length : (encode statusLine).length = 32 := by decide
      have bound : count ≤ 31 := by omega
      rw [split, List.take_append_of_le_length (by omega)]
      exact (List.take_prefix_take_left bound)
    have absent : ¬ isIn (encode "101 Switching Protocols") ((encode statusLine).take 31) := by
      decide
    exact absent (isIn_iff.mpr ((isIn_iff.mp found).trans within.isInfix))
  · intro whole
    have line : encode statusLine = encode "HTTP/1.0 " ++ encode "101 Switching Protocols" := by
      decide
    rw [isIn_iff, split, List.take_append, List.take_of_length_le whole, line]
    exact ⟨encode "HTTP/1.0 ", _, (List.append_assoc _ _ _)⟩

/-- The client is left at the first frame when its one read of the response ends with the
head, and else only where there are no frames: then it may stop inside the head, past the
status and less than a frame before the end. -/
theorem upgrade_aligned_iff (head : ResponseHead) (frames : List Frame)
    (classic : ∀ frame ∈ frames, frame.Classic) (sizes : Nat → Nat) (host : String) (port : Nat)
    (channel : String) (filters : Option (List CanFilter)) :
    (∃ sock, (connectSocketcanClient (chunks sizes) host port channel filters
          ⟨head.bytes ++ wireOf frames, 0⟩).2 = .ok sock ∧
        (recvAll (chunks sizes) sock).1 = frames.map Frame.onWire) ↔
      firstRead sizes = head.bytes.length ∨
        frames = [] ∧ (encode statusLine).length ≤ firstRead sizes ∧
          head.bytes.length < firstRead sizes + msgSize := by
  have longer : (encode statusLine).length < head.bytes.length := by
    obtain ⟨rest, split, blank⟩ := head.bytes_eq
    rw [split, List.length_append]
    omega
  simp only [connectSocketcanClient_ok_iff]
  rcases Nat.le_total (firstRead sizes) head.bytes.length with inside | beyond
  · have decodes : (decode (head.bytes.take (firstRead sizes))).isSome :=
      decode_isSome (head.isAscii.sublist (List.take_sublist _ _))
    have rest : IsAscii (head.bytes.drop (firstRead sizes)) :=
      head.isAscii.sublist (List.drop_sublist _ _)
    have received := recvAll_behind_text_iff classic (fun _ => rest) sizes 1
    rw [List.drop_eq_nil_iff, List.length_drop] at received
    rw [List.take_append_of_le_length inside, List.drop_append_of_le_length inside,
      head.granted_iff]
    constructor
    · rintro ⟨sock, ⟨_, granted, rfl⟩, same⟩
      rcases received.mp same with all | ⟨none, short⟩
      · exact Or.inl (Nat.le_antisymm inside all)
      · exact Or.inr ⟨none, granted, by omega⟩
    · rintro (all | ⟨none, granted, short⟩)
      · exact ⟨_, ⟨decodes, by omega, rfl⟩, received.mpr (Or.inl (Nat.le_of_eq all.symm))⟩
      · exact ⟨_, ⟨decodes, granted, rfl⟩, received.mpr (Or.inr ⟨none, by omega⟩)⟩
  · have received := recvAll_drop_iff classic (firstRead sizes - head.bytes.length) sizes 1
    rw [List.take_append, List.take_of_length_le beyond, List.drop_append,
      List.drop_eq_nil_of_le beyond, List.nil_append]
    constructor
    · rintro ⟨sock, ⟨_, granted, rfl⟩, same⟩
      rcases received.mp same with all | none
      · left
        omega
      · have enough : (encode statusLine).length ≤ firstRead sizes := by omega
        have past : head.bytes.length < firstRead sizes + msgSize :=
          Nat.lt_of_le_of_lt beyond (Nat.lt_add_of_pos_right (by decide))
        exact Or.inr ⟨none, enough, past⟩
    · intro condition
      have empty : firstRead sizes - head.bytes.length = 0 ∨ frames = [] := by
        rcases condition with all | ⟨none, _⟩
        · exact Or.inl (by omega)
        · exact Or.inr none
      have whole : head.bytes ++ (wireOf frames).take (firstRead sizes - head.bytes.length) =
          head.bytes := by
        rcases empty with none | rfl
        · rw [none, List.take_zero, List.append_nil]
        · rw [show wireOf [] = [] from rfl, List.take_nil, List.append_nil]
      have granted : isIn (encode "101 Switching Protocols") head.bytes := by
        have found := (head.granted_iff head.bytes.length).mpr (Nat.le_of_lt longer)
        rwa [List.take_length] at found
      rw [whole]
      exact ⟨_, ⟨decode_isSome head.isAscii, granted, rfl⟩, received.mpr empty⟩

/-- A head as the daemon sends it. -/
def exampleHead : ResponseHead :=
  upgradeResponse "BaseHTTP/0.6 Python/3.12.3" "Thu, 19 Mar 2026 10:00:00 GMT" (by decide)

theorem upgrade_aligned_iff_whole :
    ∃ sock, (connectSocketcanClient (chunks fun _ => exampleHead.bytes.length) "127.0.0.1" 8000
          "can0" none ⟨exampleHead.bytes ++ wireOf [⟨0x123, [1], false⟩], 0⟩).2 = .ok sock ∧
        (recvAll (chunks fun _ => exampleHead.bytes.length) sock).1 =
          [⟨0x123, [1], false⟩].map Frame.onWire :=
  (upgrade_aligned_iff exampleHead [⟨0x123, [1], false⟩] (by decide)
    (fun _ => exampleHead.bytes.length) "127.0.0.1" 8000 "can0" none).mpr
      (Or.inl (by decide +kernel))

/-- A frame that arrives together with the head is lost with it. -/
theorem upgrade_swallows_frame :
    (∀ frame ∈ [(⟨0x123, [1], false⟩ : Frame)], frame.Classic) ∧
      ¬ ∃ sock, (connectSocketcanClient (chunks fun _ => 4096) "127.0.0.1" 8000 "can0" none
            ⟨exampleHead.bytes ++ wireOf [⟨0x123, [1], false⟩], 0⟩).2 = .ok sock ∧
          (recvAll (chunks fun _ => 4096) sock).1 = [⟨0x123, [1], false⟩].map Frame.onWire := by
  refine ⟨by decide, ?_⟩
  rintro ⟨sock, connected, received⟩
  obtain ⟨_, _, rfl⟩ := connectSocketcanClient_ok_iff.mp connected
  revert received
  decide

end Sockcan.Daemon
