import WolfCert.Server.ContentLength
import WolfCert.Server.Head

/-!
# The lines of a client's request

What `build_head` formats as a list of lines, and what a server's header loop takes from them.
-/

namespace WolfCert.Server

open WolfCert.CLib WolfCert.Http

/-! ## Lines -/

def requestLine (method path : Bytes) : Bytes := method ++ 32 :: (path ++ 32 :: ascii "HTTP/1.1")

def hostLine (u : Url) : Bytes :=
  ascii "Host: " ++ ((if hostIsIpLiteral u.host then ascii "[" else []) ++ u.host ++
    (if hostIsIpLiteral u.host then ascii "]" else []) ++ portFragment u)

def agentLine : Bytes := ascii "User-Agent: wolfCert/0.1.0"

def connectionLine (keepAlive : Bool) : Bytes :=
  if keepAlive then ascii "Connection: keep-alive" else ascii "Connection: close"

/-- The line of a field that may be left out; the name is written with its colon and blank. -/
def fieldLine (name : String) (value : Option Bytes) : List Bytes := (value.map (ascii name ++ ·)).toList

/-- The header lines; `enc` is the encoded credential, if there is one. -/
def fieldLines (keepAlive : Bool) (req : HttpRequest) (u : Url) (enc : Option Bytes) : List Bytes :=
  [hostLine u, agentLine, connectionLine keepAlive] ++ (fieldLine "Accept: " req.accept ++
    (fieldLine "Content-Type: " req.contentType ++
      (fieldLine "Content-Transfer-Encoding: " req.contentTransferEncoding ++
        (fieldLine "Content-Length: " (some (decimal req.body.length)) ++
          fieldLine "Authorization: Basic " enc))))

variable {keepAlive : Bool} {req : HttpRequest} {u : Url} {enc : Option Bytes}

theorem optionalLine_eq (name : String) (value : Option Bytes) :
    optionalLine name value = joinLines (fieldLine name value) := by
  cases value with
  | none => rfl
  | some value => simp [optionalLine, fieldLine, joinLines]

/-- The text of the head. -/
theorem headText_lines (keepAlive : Bool) (req : HttpRequest) (u : Url) (enc : Option Bytes) :
    headText keepAlive req u (joinLines (fieldLine "Authorization: Basic " enc)) =
      joinLines (requestLine req.method u.path :: fieldLines keepAlive req u enc) ++ [13, 10] := by
  have version : ascii " HTTP/1.1\r\n" = 32 :: (ascii "HTTP/1.1" ++ [13, 10]) := rfl
  have agent : ascii "User-Agent: wolfCert/" ++ versionString = agentLine := by decide +kernel
  have blank : ascii " " = [32] := rfl
  have connection : ascii "Connection: " ++ (if keepAlive then ascii "keep-alive" else ascii "close") =
      connectionLine keepAlive := by
    cases keepAlive <;> rfl
  have first : joinLines (requestLine req.method u.path :: fieldLines keepAlive req u enc) =
      requestLine req.method u.path ++ 13 :: 10 :: (hostLine u ++ 13 :: 10 :: (agentLine ++ 13 :: 10 ::
        (connectionLine keepAlive ++ 13 :: 10 :: (joinLines (fieldLine "Accept: " req.accept) ++
          (joinLines (fieldLine "Content-Type: " req.contentType) ++
            (joinLines (fieldLine "Content-Transfer-Encoding: " req.contentTransferEncoding) ++
              (ascii "Content-Length: " ++ (decimal req.body.length ++ 13 :: 10 ::
                joinLines (fieldLine "Authorization: Basic " enc))))))))) := by
    have length : fieldLine "Content-Length: " (some (decimal req.body.length)) =
        [ascii "Content-Length: " ++ decimal req.body.length] := rfl
    rw [fieldLines, length]
    simp [joinLines]
  rw [first, ← agent, ← connection]
  unfold headText requestLine hostLine
  rw [version, blank]
  simp only [optionalLine_eq, List.append_assoc, List.cons_append, List.nil_append]

theorem parseRequestLine_requestLine {method path : Bytes} (short : method.length ≤ 7) (name : 32 ∉ method)
    (solid : 32 ∉ path) :
    parseRequestLine (requestLine method path) = some ⟨method, path, ascii "HTTP/1.1"⟩ := by
  simp only [parseRequestLine, requestLine, takeWhile_front name, dropWhile_front name, takeWhile_front solid,
    dropWhile_front solid, if_neg (by omega : ¬method.length ≥ 8)]

/-! ## Their characters -/

theorem requestLine_plain {method path : Bytes} (name : ∀ c ∈ method, c ≠ 0 ∧ c ≠ 10)
    (text : ∀ c ∈ path, c ≠ 0 ∧ c ≠ 10) : PlainLine (requestLine method path) := by
  refine ⟨by simp [requestLine], fun c inside => ?_⟩
  have fixed : ∀ c ∈ 32 :: ascii "HTTP/1.1", c ≠ 0 ∧ c ≠ 10 := by decide +kernel
  rw [requestLine, List.mem_append, List.mem_cons, List.mem_append] at inside
  rcases inside with method | rfl | path | version
  · exact name c method
  · decide
  · exact text c path
  · exact fixed c version

theorem digits_plain {n : Nat} {c : UInt8} (inside : c ∈ decimal n) : c ≠ 0 ∧ c ≠ 10 := by
  have digit := decimal_digits inside
  constructor
  · rintro rfl
    exact absurd digit (by decide)
  · rintro rfl
    exact absurd digit (by decide)

theorem hostLine_plain (hosts : ∀ c ∈ u.host, c ≠ 0 ∧ c ≠ 10) : PlainLine (hostLine u) := by
  refine ⟨by simp [hostLine, ascii], fun c inside => ?_⟩
  rw [hostLine, List.mem_append, List.mem_append, List.mem_append, List.mem_append] at inside
  rcases inside with name | ((bracket | host) | bracket) | ported
  · exact (by decide +kernel : ∀ c ∈ ascii "Host: ", c ≠ 0 ∧ c ≠ 10) c name
  · split at bracket
    · exact (by decide +kernel : ∀ c ∈ ascii "[", c ≠ 0 ∧ c ≠ 10) c bracket
    · cases bracket
  · exact hosts c host
  · split at bracket
    · exact (by decide +kernel : ∀ c ∈ ascii "]", c ≠ 0 ∧ c ≠ 10) c bracket
    · cases bracket
  · unfold portFragment at ported
    split at ported
    · rcases List.mem_append.mp ported with colon | number
      · exact (by decide +kernel : ∀ c ∈ ascii ":", c ≠ 0 ∧ c ≠ 10) c colon
      · exact digits_plain number
    · cases ported

/-! ## The header loop over them -/

/-- A field of another name, told by the front of the line. -/
theorem httpHdrIs_front {front name : Bytes} (plain : ∀ c ∈ name, c ≠ 0)
    (other : (front.take name.length).map ciLower ≠ (name.take front.length).map ciLower) (rest : Bytes) :
    httpHdrIs (front ++ rest) name = false := by
  rw [Bool.eq_false_iff]
  intro here
  simp only [httpHdrIs, Bool.and_eq_true, decide_eq_true_eq] at here
  have folded := congrArg (List.take front.length) (asciiNcasecmp_name plain here.2)
  rw [← List.map_take, ← List.map_take, List.take_take, Nat.min_comm, ← List.take_take, List.take_left]
    at folded
  exact other folded

/-- The fields a server looks at. -/
def readFields : List Bytes :=
  [ascii "Content-Length", ascii "Transfer-Encoding", ascii "Connection", ascii "Authorization"]

/-- A name that is no name of such a field, whatever follows its colon. -/
def Unread (name : Bytes) : Prop :=
  (∀ c ∈ name, c ≠ 0 ∧ c ≠ 10 ∧ c ≠ 58) ∧ (∀ c ∈ name.getLast?, c ≠ 32 ∧ c ≠ 9) ∧
    ∀ field ∈ readFields, ((name ++ [58, 32]).take field.length).map ciLower ≠
      (field.take (name ++ [58, 32]).length).map ciLower

instance (name : Bytes) : Decidable (Unread name) := inferInstanceAs (Decidable (_ ∧ _))

theorem headerLine_ignored {authorizes : Bool} (name : Bytes) (unread : Unread name) (st : HeadState)
    (value after : Bytes) : headerLine authorizes st (name ++ [58, 32] ++ value) after = pure st := by
  obtain ⟨chars, solid, others⟩ := unread
  have shown : ∀ field ∈ readFields, ∀ c ∈ field, c ≠ 0 := by decide +kernel
  have absent : ∀ field ∈ readFields, httpHdrIs (name ++ [58, 32] ++ value) field = false :=
    fun field inside => httpHdrIs_front (shown field inside) (others field inside) value
  have split : ∃ value', httpHdrSplit (name ++ [58, 32] ++ value) = .value value' := by
    have all : ∀ c ∈ name, (c != 58) = true := by
      intro c inside
      rw [bne_iff_ne]
      exact (chars c inside).2.2
    have taken : (name ++ [58, 32] ++ value).takeWhile (· != 58) = name := by
      rw [List.append_assoc, List.takeWhile_append_of_pos all]
      simp
    have dropped : (name ++ [58, 32] ++ value).dropWhile (· != 58) = 58 :: 32 :: value := by
      rw [List.append_assoc, List.dropWhile_append_of_pos all]
      simp
    simp only [httpHdrSplit, taken, dropped]
    cases last : name.getLast? with
    | none => exact ⟨_, rfl⟩
    | some c =>
        have plain := solid c last
        simp [plain]
  obtain ⟨value', split⟩ := split
  simp only [headerLine, split, framingHdr, absent (ascii "Content-Length") (by simp [readFields]),
    absent (ascii "Transfer-Encoding") (by simp [readFields]),
    absent (ascii "Connection") (by simp [readFields]),
    absent (ascii "Authorization") (by simp [readFields]), Bool.false_eq_true, if_false, and_false]

/-- The framing of a request with a body of that length. -/
def sentFraming (keepAlive : Bool) (n : Nat) : ReqFraming where
  http10 := false
  contentLength := n
  clSeen := true
  chunked := false
  close := !keepAlive
  keepAlive := keepAlive

theorem headerLine_connection {authorizes : Bool} (keepAlive : Bool) (after : Bytes) :
    headerLine authorizes ⟨framingInit (ascii "HTTP/1.1"), none⟩ (connectionLine keepAlive) after =
      pure ⟨{ sentFraming keepAlive 0 with clSeen := false }, none⟩ := by
  cases keepAlive <;> cases authorizes <;> rfl

theorem plainDecimal_decimal (n : Nat) : PlainDecimal (decimal n) n :=
  ⟨decimal_ne_nil n, fun _ inside => decimal_digits inside, digitsValue_decimal n⟩

theorem headerLine_contentLength {authorizes : Bool} (st : HeadState) {n : Nat} (small : n ≤ ulongMax)
    (rest : Bytes) :
    headerLine authorizes st (ascii "Content-Length: " ++ decimal n) (13 :: 10 :: rest) =
      pure { st with framing := { st.framing with contentLength := n, clSeen := true } } := by
  have field : httpHdrIs (ascii "Content-Length: " ++ decimal n) (ascii "Content-Length") = true := by
    have long : (ascii "Content-Length: " ++ decimal n).length > (ascii "Content-Length").length := by
      have sizes : (ascii "Content-Length: ").length = 16 ∧ (ascii "Content-Length").length = 14 := by
        decide +kernel
      rw [List.length_append]
      omega
    simp only [httpHdrIs, decide_eq_true long, Bool.true_and]
    rfl
  have split := httpHdrSplit_field clName_field field
  have value : (ascii "Content-Length: " ++ decimal n).drop (clName.length + 1) = 32 :: decimal n := rfl
  have solid : ∀ c ∈ decimal n, isOws c = false := by
    intro c inside
    have digit := decimal_digits inside
    cases blank : isOws c with
    | false => rfl
    | true =>
        rw [(isOws_plain blank).1] at digit
        cases digit
  have kept {digits : Bytes} (all : ∀ c ∈ digits, isOws c = false) : digits.dropWhile isOws = digits := by
    cases digits with
    | nil => rfl
    | cons c digits => simp [all c List.mem_cons_self]
  have trimmed : trimOws (32 :: decimal n) = decimal n := by
    have first : (32 :: decimal n).dropWhile isOws = decimal n := kept solid
    have last : (decimal n).reverse.dropWhile isOws = (decimal n).reverse :=
      kept fun c inside => solid c (List.mem_reverse.mp inside)
    rw [trimOws, first, last, List.reverse_reverse]
  have stated := strtoul_stated (plainDecimal_decimal n) trimmed (.inr rfl : LineEnd (13 :: 10 :: rest))
  rw [value] at split
  simp only [headerLine, split, framingHdr, field, if_true, stated, Nat.min_eq_left small]

theorem headerLine_authorization {c : Conn} (free : c.memory = []) {st : HeadState}
    (first : st.authHeader = none) {enc : Bytes} (chars : ∀ b ∈ enc, b ≠ 0 ∧ b ≠ 10) (after : Bytes) :
    headerLine true st (ascii "Authorization: Basic " ++ enc) after c =
      some (.ok { st with authHeader := some (ascii "Basic " ++ enc) }, c) := by
  have split : httpHdrSplit (ascii "Authorization: Basic " ++ enc) = .value (ascii "Basic " ++ enc) := rfl
  have field : httpHdrIs (ascii "Authorization: Basic " ++ enc) (ascii "Authorization") = true := by
    have long : (ascii "Authorization: Basic " ++ enc).length > (ascii "Authorization").length := by
      have sizes : (ascii "Authorization: Basic ").length = 21 ∧ (ascii "Authorization").length = 13 := by
        decide +kernel
      rw [List.length_append]
      omega
    simp only [httpHdrIs, decide_eq_true long, Bool.true_and]
    rfl
  have others : ∀ name ∈ [ascii "Content-Length", ascii "Transfer-Encoding", ascii "Connection"],
      httpHdrIs (ascii "Authorization: Basic " ++ enc) name = false := by
    intro name inside
    have shown : ∀ name ∈ [ascii "Content-Length", ascii "Transfer-Encoding", ascii "Connection"],
        (∀ c ∈ name, c ≠ 0) ∧ ((ascii "Authorization: Basic ").take name.length).map ciLower ≠
          (name.take (ascii "Authorization: Basic ").length).map ciLower := by
      decide +kernel
    exact httpHdrIs_front (shown name inside).1 (shown name inside).2 enc
  have whole : cString (ascii "Basic " ++ enc) = ascii "Basic " ++ enc := by
    rw [cString, List.takeWhile_eq_self_iff]
    intro b inside
    rcases List.mem_append.mp inside with scheme | text
    · exact (by decide +kernel : ∀ b ∈ ascii "Basic ", (b != 0) = true) b scheme
    · simpa using (chars b text).1
  have granted : Prog.call (ε := Rc) Conn.alloc c = some (.ok true, c) := by
    obtain ⟨rest, plan, memory⟩ := c
    obtain rfl : memory = [] := free
    rfl
  simp only [headerLine, split, framingHdr, field, others (ascii "Content-Length") (by simp),
    others (ascii "Transfer-Encoding") (by simp), others (ascii "Connection") (by simp),
    Bool.false_eq_true, if_false, true_and, if_true, takeAuthorization, Prog.bind_ok_iff, Prog.require_ok_iff]
  exact ⟨(), c, ⟨first, rfl⟩, true, c, granted, by simp [whole]⟩

/-- The values of a request's own fields break no line. -/
structure PlainValues (req : HttpRequest) : Prop where
  accept : ∀ value ∈ req.accept, ∀ c ∈ value, c ≠ 0 ∧ c ≠ 10
  contentType : ∀ value ∈ req.contentType, ∀ c ∈ value, c ≠ 0 ∧ c ≠ 10
  transferEncoding : ∀ value ∈ req.contentTransferEncoding, ∀ c ∈ value, c ≠ 0 ∧ c ≠ 10

/-- A line that has the same effect on every connection. -/
theorem LineRun.single {authorizes : Bool} {st st' : HeadState} {line : Bytes} (plain : PlainLine line)
    (stepped : ∀ rest, headerLine authorizes st line (13 :: 10 :: rest) = pure st') :
    LineRun authorizes st [line] st' :=
  .cons plain (fun c rest _ => congrFun (stepped rest) c) (.nil st')

/-- A field that a server does not look at. -/
theorem LineRun.ignored {authorizes : Bool} (name : Bytes) (unread : Unread name) (st : HeadState)
    {value : Option Bytes} (chars : ∀ text ∈ value, ∀ c ∈ text, c ≠ 0 ∧ c ≠ 10) :
    LineRun authorizes st (value.map (name ++ [58, 32] ++ ·)).toList st := by
  cases value with
  | none => exact .nil st
  | some text =>
      have plain : PlainLine (name ++ [58, 32]) := by
        refine ⟨by simp, fun c inside => ?_⟩
        rcases List.mem_append.mp inside with front | colon
        · exact ⟨(unread.1 c front).1, (unread.1 c front).2.1⟩
        · exact (by decide +kernel : ∀ c ∈ ([58, 32] : Bytes), c ≠ 0 ∧ c ≠ 10) c colon
      exact .single (plain.append (chars text rfl)) fun rest => headerLine_ignored name unread st text _

/-- What a server takes from the header lines. -/
theorem fieldLines_run {authorizes : Bool} (kept : authorizes = true ∨ enc = none)
    (hosts : ∀ c ∈ u.host, c ≠ 0 ∧ c ≠ 10) (values : PlainValues req)
    (small : req.body.length ≤ ulongMax) (chars : ∀ text ∈ enc, ∀ c ∈ text, c ≠ 0 ∧ c ≠ 10) :
    LineRun authorizes ⟨framingInit (ascii "HTTP/1.1"), none⟩ (fieldLines keepAlive req u enc)
      ⟨sentFraming keepAlive req.body.length, enc.map (ascii "Basic " ++ ·)⟩ := by
  have fixed {line : Bytes} (filled : line ≠ []) (text : ∀ c ∈ line, c ≠ 0 ∧ c ≠ 10) : PlainLine line :=
    ⟨filled, text⟩
  let empty : HeadState := ⟨framingInit (ascii "HTTP/1.1"), none⟩
  let begun : HeadState := ⟨{ sentFraming keepAlive 0 with clSeen := false }, none⟩
  let stated : HeadState := ⟨sentFraming keepAlive req.body.length, none⟩
  have host : LineRun authorizes empty [hostLine u] empty :=
    .single (hostLine_plain hosts) fun rest => headerLine_ignored (ascii "Host") (by decide +kernel) _ _ _
  have agent : LineRun authorizes empty [agentLine] empty :=
    .single (fixed (by decide) (by decide +kernel)) fun rest =>
      headerLine_ignored (ascii "User-Agent") (by decide +kernel) _ (ascii "wolfCert/0.1.0") _
  have connection : LineRun authorizes empty [connectionLine keepAlive] begun := by
    refine .single ?_ fun rest => headerLine_connection keepAlive _
    cases keepAlive
    · exact fixed (by decide) (by decide +kernel)
    · exact fixed (by decide) (by decide +kernel)
  have accept : LineRun authorizes begun (fieldLine "Accept: " req.accept) begun :=
    .ignored (ascii "Accept") (by decide +kernel) begun values.accept
  have type : LineRun authorizes begun (fieldLine "Content-Type: " req.contentType) begun :=
    .ignored (ascii "Content-Type") (by decide +kernel) begun values.contentType
  have coding : LineRun authorizes begun
      (fieldLine "Content-Transfer-Encoding: " req.contentTransferEncoding) begun :=
    .ignored (ascii "Content-Transfer-Encoding") (by decide +kernel) begun values.transferEncoding
  have length : LineRun authorizes begun (fieldLine "Content-Length: " (some (decimal req.body.length)))
      stated :=
    .single (.append (fixed (by decide) (by decide +kernel)) fun c inside => digits_plain inside)
      (headerLine_contentLength begun small)
  have credential : LineRun authorizes stated (fieldLine "Authorization: Basic " enc)
      { stated with authHeader := enc.map (ascii "Basic " ++ ·) } := by
    cases enc with
    | none => exact .nil _
    | some text =>
        obtain rfl : authorizes = true := kept.resolve_right nofun
        exact .cons (.append (fixed (by decide) (by decide +kernel)) (chars text rfl))
          (fun c rest free => headerLine_authorization free rfl (chars text rfl) _) (.nil _)
  exact (host.append (agent.append connection)).append
    (accept.append (type.append (coding.append (length.append credential))))

end WolfCert.Server
