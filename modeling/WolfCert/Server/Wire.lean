import WolfCert.Http.Reply
import WolfCert.Server.HeadLines
import WolfCert.Server.Persistence

/-!
# Responses on the wire

What the client of `http.c` reads where a server sent a response.
-/

namespace WolfCert.Server

open WolfCert.CLib WolfCert.Http

/-! ## Fields -/

structure Field where
  name : Bytes
  value : Bytes
deriving DecidableEq, Repr

def Field.line (f : Field) : Bytes := f.name ++ 58 :: 32 :: f.value

/-- A field that stands on one line and whose value does not begin with a blank. -/
def Field.Plain (f : Field) : Prop :=
  FieldName f.name ∧ 10 ∉ f.name ∧ (∀ c ∈ f.value, c ≠ 0 ∧ c ≠ 10) ∧ ∀ c ∈ f.value.head?, isOws c = false

instance (f : Field) : Decidable f.Plain := inferInstanceAs (Decidable (_ ∧ _))

/-- Names differ in more than case. -/
def Field.named (name : Bytes) (f : Field) : Bool := f.name.map ciLower == name.map ciLower

/-- The value of the first field of that name. -/
def lookup (name : Bytes) (fields : List Field) : Option Bytes := (fields.find? (·.named name)).map Field.value

theorem lookup_append (name : Bytes) (fields more : List Field) :
    lookup name (fields ++ more) = (lookup name fields).or (lookup name more) := by
  simp [lookup, List.find?_append, Option.map_or]

theorem lookup_none {name : Bytes} {fields : List Field} (absent : ∀ f ∈ fields, f.named name = false) :
    lookup name fields = none := by
  simp only [lookup, Option.map_eq_none_iff, List.find?_eq_none]
  exact fun f inside => by simp [absent f inside]

section Fields

variable {f : Field} {name : Bytes}

theorem Field.Plain.line (plain : f.Plain) : PlainLine f.line := by
  obtain ⟨⟨filled, chars⟩, unbroken, values, -⟩ := plain
  refine ⟨by simp [Field.line], fun b inside => ?_⟩
  rcases List.mem_append.mp inside with inside | inside
  · exact ⟨(chars b inside).2.2.2, fun same => unbroken (same ▸ inside)⟩
  · rcases List.mem_cons.mp inside with rfl | inside
    · decide
    · rcases List.mem_cons.mp inside with rfl | inside
      · decide
      · exact values b inside

theorem httpHdrIs_line (plain : f.Plain) (field : FieldName name) : httpHdrIs f.line name = f.named name := by
  obtain ⟨⟨-, chars⟩, -⟩ := plain
  have colon : 58 ∉ f.name := fun inside => (chars 58 inside).1 rfl
  rw [Bool.eq_iff_iff, Field.named, beq_iff_eq]
  constructor
  · intro here
    obtain ⟨folded, before, -⟩ := httpHdrIs_cut field here
    rw [Field.line, takeWhile_front colon] at before
    rw [← folded, Field.line, ← before]
  · intro same
    have size : f.name.length = name.length := by simpa using congrArg List.length same
    have front : f.line.take name.length = f.name := by rw [Field.line, ← size, List.take_left]
    have rest : f.line.drop name.length = 58 :: 32 :: f.value := by rw [Field.line, ← size, List.drop_left]
    have compared : asciiNcasecmp f.line name name.length = 0 :=
      asciiNcasecmp_of_map (fun b inside => (field.2 b inside).2.2.2) (by rw [front, same])
    have long : f.line.length > name.length := by simp [Field.line, size]
    simp [httpHdrIs, rest, compared, charAt, long]

theorem httpHdrSplit_line (plain : f.Plain) : httpHdrSplit f.line = .value f.value := by
  have self : httpHdrIs f.line f.name = true := by
    rw [httpHdrIs_line plain plain.1]
    simp [Field.named]
  rw [httpHdrSplit_field plain.1 self]
  have rest : f.line.drop (f.name.length + 1) = 32 :: f.value := by
    rw [Field.line, ← List.drop_drop, List.drop_left]
    rfl
  have blank : isOws 32 = true := by decide
  rw [rest, List.dropWhile_cons, if_pos blank]
  have front := plain.2.2.2
  cases value : f.value with
  | nil => rfl
  | cons c rest =>
      rw [value] at front
      rw [List.dropWhile_cons, if_neg (by simp [front c rfl])]

end Fields

/-! ## Fields that every response has -/

/-- `conn_hdr` of both servers. -/
def connHdr (keepAlive : Bool) : Bytes := if keepAlive then ascii "keep-alive" else ascii "close"

def lengthField (n : Nat) : Field := ⟨ascii "Content-Length", decimal n⟩

def connectionField (keepAlive : Bool) : Field := ⟨ascii "Connection", connHdr keepAlive⟩

/-- What the servers add to the fields of a handler: the length of the body, where it is counted, and the
connection. -/
def ownFields (keepAlive : Bool) (counted : Option Nat) : List Field :=
  (counted.map lengthField).toList ++ [connectionField keepAlive]

theorem connHdr_length (keepAlive : Bool) : (connHdr keepAlive).length ≤ 10 := by
  cases keepAlive <;> decide

theorem decimalField_plain {name : Bytes} (field : FieldName name ∧ 10 ∉ name) (n : Nat) :
    Field.Plain ⟨name, decimal n⟩ := by
  refine ⟨field.1, field.2, fun c inside => digits_plain inside, fun c first => ?_⟩
  have digit := decimal_digits (List.mem_of_head? first)
  rw [Bool.eq_false_iff]
  intro blank
  rw [(isOws_plain blank).1] at digit
  cases digit

theorem ownFields_plain {keepAlive : Bool} {counted : Option Nat} :
    ∀ f ∈ ownFields keepAlive counted, f.Plain := by
  have connection : (connectionField keepAlive).Plain := by cases keepAlive <;> decide +kernel
  cases counted with
  | none => simpa [ownFields] using connection
  | some n =>
      have length : (lengthField n).Plain := decimalField_plain (by decide) n
      simpa [ownFields] using ⟨length, connection⟩

theorem ownFields_lookup {name : Bytes} {keepAlive : Bool} {counted : Option Nat}
    (length : (ascii "Content-Length").map ciLower ≠ name.map ciLower)
    (connection : (ascii "Connection").map ciLower ≠ name.map ciLower) :
    lookup name (ownFields keepAlive counted) = none := by
  refine lookup_none fun f inside => ?_
  rcases List.mem_append.mp inside with inside | inside
  · obtain ⟨n, -, rfl⟩ : ∃ n, counted = some n ∧ lengthField n = f := by simpa using inside
    rwa [Field.named, beq_eq_false_iff_ne]
  · rw [List.mem_singleton.mp inside, Field.named, beq_eq_false_iff_ne]
    exact connection

/-- The fields of a handler leave the framing alone. -/
def Unframed (fields : List Field) : Prop :=
  ∀ f ∈ fields, f.Plain ∧ f.named (ascii "Content-Length") = false ∧ f.named (ascii "Transfer-Encoding") = false

/-! ## Heads -/

theorem strstr_crlf {line : Bytes} (unbroken : 10 ∉ line) (rest : Bytes) :
    strstr [13, 10] (line ++ 13 :: 10 :: rest) = some (line, rest) := by
  induction line with
  | nil =>
      have here : strstr [13, 10] ([13, 10] ++ rest) = some ([], rest) := strstr_self rest
      exact here
  | cons b line ih =>
      have later := ih fun inside => unbroken (List.mem_cons_of_mem _ inside)
      have other : [13, 10].isPrefixOf (b :: (line ++ 13 :: 10 :: rest)) = false := by
        cases line with
        | nil => simp [List.isPrefixOf]
        | cons c line =>
            have second : c ≠ 10 := by
              rintro rfl
              exact unbroken (by simp)
            simp [List.isPrefixOf, second.symm]
      rw [List.cons_append, strstr, if_neg (by simp [other]), later]
      rfl

theorem findHeaderFrom_fields {name : Bytes} {fields : List Field} (field : FieldName name)
    (plain : ∀ f ∈ fields, f.Plain) {fuel : Nat} (enough : fields.length + 1 < fuel) :
    findHeaderFrom name fuel (joinLines (fields.map Field.line) ++ [13, 10]) = lookup name fields := by
  induction fields generalizing fuel with
  | nil =>
      obtain ⟨fuel, rfl⟩ : ∃ n, fuel = n + 2 := ⟨fuel - 2, by simp at enough; omega⟩
      have blank : strstr [13, 10] [13, 10] = some ([], []) := by decide
      have none' : strstr [13, 10] [] = none := by decide
      have other : httpHdrIs [] name = false := by simp [httpHdrIs]
      simp [findHeaderFrom, joinLines, blank, none', other, lookup]
  | cons f fields ih =>
      obtain ⟨fuel, rfl⟩ : ∃ n, fuel = n + 1 := ⟨fuel - 1, by simp at enough; omega⟩
      have own := plain f List.mem_cons_self
      have cut := strstr_crlf own.line.not_mem.2 (joinLines (fields.map Field.line) ++ [13, 10])
      have text : joinLines ((f :: fields).map Field.line) ++ [13, 10] =
          f.line ++ 13 :: 10 :: (joinLines (fields.map Field.line) ++ [13, 10]) := by simp [joinLines]
      have later : findHeaderFrom name fuel (joinLines (fields.map Field.line) ++ [13, 10]) = lookup name fields :=
        ih (fun g inside => plain g (List.mem_cons_of_mem _ inside)) (by simp at enough; omega)
      rw [text, findHeaderFrom, cut]
      simp only [httpHdrIs_line own field, httpHdrSplit_line own, later, lookup, List.find?_cons]
      cases f.named name <;> simp

theorem chars_of_all {text : Bytes} (plain : (text.all fun c => c != 0 && c != 10) = true) :
    ∀ c ∈ text, c ≠ 0 ∧ c ≠ 10 := by
  simpa using plain

def statusLine (status : Nat) (phrase : Bytes) : Bytes := ascii "HTTP/1.1 " ++ (decimal status ++ 32 :: phrase)

/-- The head of a response. -/
def responseHead (status : Nat) (phrase : Bytes) (fields : List Field) : Bytes :=
  joinLines (statusLine status phrase :: fields.map Field.line) ++ [13, 10]

theorem strtol_decimal (n : Nat) {rest : Bytes} (ends : ∀ c ∈ rest.head?, isDigit c = false) :
    strtol (decimal n ++ rest) = (min (n : Int) longMax, rest) := by
  have all : ∀ c ∈ decimal n, isDigit c = true := fun _ inside => decimal_digits inside
  obtain ⟨start, minus, plus⟩ := digits_start (decimal_ne_nil n) all rest
  obtain ⟨taken, dropped⟩ := digits_cut all ends
  simp only [strtol, start, minus, plus, Bool.or_false, Bool.false_eq_true, if_false, taken, dropped,
    decimal_ne_nil n, digitsValue_decimal]

theorem decimal_le {n digits : Nat} (positive : 0 < digits) (small : n < 10 ^ digits) :
    (decimal n).length ≤ digits := by
  rw [decimal, List.length_map]
  exact (Nat.length_toDigits_le_iff (by decide) positive).mpr small

section Heads

variable {status : Nat} {phrase name : Bytes} {fields : List Field}

theorem statusLine_plain (text : ∀ c ∈ phrase, c ≠ 0 ∧ c ≠ 10) : PlainLine (statusLine status phrase) := by
  have front : PlainLine (ascii "HTTP/1.1 ") := ⟨by decide, chars_of_all (by decide)⟩
  refine front.append fun b inside => ?_
  rcases List.mem_append.mp inside with inside | inside
  · exact digits_plain inside
  · rcases List.mem_cons.mp inside with rfl | inside
    · decide
    · exact text b inside

theorem parseStatusLine_head (code : 100 ≤ status ∧ status ≤ 999) (rest : Bytes) :
    parseStatusLine (statusLine status phrase ++ rest) = some (status : Int) := by
  have version : ascii "HTTP/1.1 " = ascii "HTTP/1.1" ++ [32] := by decide
  have solid : 32 ∉ ascii "HTTP/1.1" := by decide
  have protocol : (ascii "HTTP/").isPrefixOf (statusLine status phrase ++ rest) = true := by
    have front : (ascii "HTTP/1.1 ") = ascii "HTTP/" ++ ascii "1.1 " := by decide
    rw [List.isPrefixOf_iff_prefix, statusLine, front, List.append_assoc, List.append_assoc]
    exact List.prefix_append _ _
  have blank : strchr 32 (statusLine status phrase ++ rest) = some (32 :: (decimal status ++ (32 :: phrase ++ rest))) := by
    have shape : statusLine status phrase ++ rest =
        ascii "HTTP/1.1" ++ 32 :: (decimal status ++ (32 :: phrase ++ rest)) := by
      simp [statusLine, version]
    rw [shape, strchr_of_not_mem solid]
  have ends : ∀ c ∈ (32 :: phrase ++ rest).head?, isDigit c = false := by
    rintro c ⟨⟩
    decide
  have limit : longMax = 9223372036854775807 := rfl
  have within : ¬((status : Int) < 100 ∨ (status : Int) > 999) := by omega
  have small : min (status : Int) longMax = status := by omega
  simp only [parseStatusLine, protocol, if_true, blank, List.tail_cons, strtol_decimal status ends, small,
    if_neg within]

theorem findHeader_head (field : FieldName name) (other : httpHdrIs (statusLine status phrase) name = false)
    (text : ∀ c ∈ phrase, c ≠ 0 ∧ c ≠ 10) (plain : ∀ f ∈ fields, f.Plain) :
    findHeader (responseHead status phrase fields) name = lookup name fields := by
  have own : PlainLine (statusLine status phrase) := statusLine_plain text
  have cut := strstr_crlf own.not_mem.2 (joinLines (fields.map Field.line) ++ [13, 10])
  have shape : responseHead status phrase fields =
      statusLine status phrase ++ 13 :: 10 :: (joinLines (fields.map Field.line) ++ [13, 10]) := by
    simp [responseHead, joinLines]
  have size : fields.length ≤ (joinLines (fields.map Field.line)).length := by
    simpa using length_le_joinLines (fields.map Field.line)
  rw [findHeader, shape, findHeaderFrom, cut]
  simp only [other, Bool.false_eq_true, if_false]
  exact findHeaderFrom_fields field plain (by simp; omega)

theorem headScan_strstr {text before after : Bytes} (found : strstr crlfCrlf text = some (before, after)) :
    headScan text 0 = before.length := by
  induction text generalizing before with
  | nil => simp [strstr, crlfCrlf] at found
  | cons a rest ih =>
      rw [strstr] at found
      split at found
      · rename_i here
        cases found
        obtain ⟨more, same⟩ : ∃ more, crlfCrlf ++ more = a :: rest := List.isPrefixOf_iff_prefix.mp here
        rw [← same]
        simp [crlfCrlf, headScan]
      · rename_i away
        obtain ⟨later, inside, same⟩ := Option.map_eq_some_iff.mp found
        cases same
        have next := ih inside
        obtain ⟨b, c, d, more, rfl⟩ : ∃ b c d more, rest = b :: c :: d :: more := by
          have size : 4 ≤ rest.length := by
            rw [strstr_eq_append inside]
            simp [crlfCrlf]
            omega
          rcases rest with _ | ⟨b, _ | ⟨c, _ | ⟨d, more⟩⟩⟩
          · simp at size
          · simp at size
          · simp at size
          · exact ⟨b, c, d, more, rfl⟩
        have other : ¬(a = 13 ∧ b = 10 ∧ c = 13 ∧ d = 10) := by
          rintro ⟨rfl, rfl, rfl, rfl⟩
          exact away (by simp [crlfCrlf, List.isPrefixOf])
        rw [headScan, if_neg other, headScan_offset, next, List.length_cons, Nat.add_comm]

/-- The blank line is found behind the last field. -/
theorem headScan_lines {lines : List Bytes} (plain : ∀ line ∈ lines, PlainLine line) (some : lines ≠ [])
    (later : Bytes) :
    headScan (joinLines lines ++ 13 :: 10 :: later) 0 + 2 = (joinLines lines).length := by
  obtain ⟨block, shape, found⟩ := strstr_joinLines plain some later
  rw [headScan_strstr found, shape, List.length_append]
  rfl

/-- The fields that the client looks at. -/
def replyFields : List Bytes :=
  [ascii "Transfer-Encoding", ascii "Content-Length", ascii "Content-Type", ascii "Retry-After"]

theorem replyFields_front : ∀ name ∈ replyFields, FieldName name ∧
    ((ascii "HTTP/1.1 ").take name.length).map ciLower ≠ (name.take (ascii "HTTP/1.1 ").length).map ciLower := by
  decide

/-- A response with that head, whose body has the length the head gives, is read as it is meant. -/
theorem reply_head (ctx : ReplyContext) (interims : Nat) (code : 200 ≤ status ∧ status ≤ 999)
    (text : ∀ c ∈ phrase, c ≠ 0 ∧ c ≠ 10) (plain : ∀ f ∈ fields, f.Plain)
    (short : (responseHead status phrase fields).length ≤ headerBudget)
    (unchunked : lookup (ascii "Transfer-Encoding") fields = none) {body : Bytes}
    (sized : if responseHasNoBody status ctx.headRequest then body = []
      else lookup (ascii "Content-Length") fields = some (decimal body.length))
    (fits : body.length ≤ ctx.maxBody ∧ (body.length : Int) ≤ longMax) (later : Bytes) :
    ctx.reply interims (responseHead status phrase fields ++ body ++ later) = .ok
      { response :=
          { statusCode := status, contentType := lookup (ascii "Content-Type") fields, body
            retryAfterSec := (lookup (ascii "Retry-After") fields).elim 0 (parseRetryAfter · ctx.now) }
        after := later, toClose := false } := by
  have fields' : ∀ name ∈ replyFields, findHeader (responseHead status phrase fields) name = lookup name fields := by
    intro name inside
    obtain ⟨field, other⟩ := replyFields_front name inside
    exact findHeader_head field (httpHdrIs_front (fun c inside => (field.2 c inside).2.2.2) other _) text plain
  have lines : ∀ line ∈ statusLine status phrase :: fields.map Field.line, PlainLine line := by
    intro line inside
    rcases List.mem_cons.mp inside with rfl | inside
    · exact statusLine_plain text
    · obtain ⟨f, member, rfl⟩ := List.mem_map.mp inside
      exact (plain f member).line
  -- the head is found
  obtain ⟨room, budget⟩ : ∃ room, headerBudget = (responseHead status phrase fields).length + room :=
    Nat.exists_eq_add_of_le short
  have window : (responseHead status phrase fields ++ body ++ later).take headerBudget =
      responseHead status phrase fields ++ (body ++ later).take room := by
    rw [List.append_assoc, budget, List.take_length_add_append]
  obtain ⟨i, found, size⟩ : ∃ i, headScan (responseHead status phrase fields ++ (body ++ later).take room) 0 = i ∧
      i + 4 = (responseHead status phrase fields).length := by
    refine ⟨_, rfl, ?_⟩
    have scanned := headScan_lines lines (by simp) ((body ++ later).take room)
    simp only [responseHead, List.append_assoc, List.cons_append, List.nil_append, List.length_append] at scanned ⊢
    simp only [List.length_cons, List.length_nil]
    omega
  rw [ctx.reply_headed interims (i := i) (by rw [window, found]) (by rw [window, List.length_append]; omega), size,
    List.append_assoc, List.take_left, List.drop_left]
  -- its fields
  have framing : ctx.framing status (responseHead status phrase fields) = (false, (body.length : Int)) := by
    unfold ReplyContext.framing
    split at sized
    · rename_i bodiless
      rw [if_pos bodiless, sized]
      rfl
    · rename_i bodied
      rw [if_neg bodied, fields' (ascii "Transfer-Encoding") (by simp [replyFields]), unchunked,
        fields' (ascii "Content-Length") (by simp [replyFields]), sized]
      have ends : ∀ c ∈ ([] : Bytes).head?, isDigit c = false := by simp
      have number := strtol_decimal body.length ends
      rw [List.append_nil] at number
      have exact : min (body.length : Int) longMax = body.length := by omega
      simp only [number, exact]
  have head : ctx.finalHead status (responseHead status phrase fields) =
      { status := status, chunked := false, contentLength := body.length
        contentType := lookup (ascii "Content-Type") fields
        retryAfterSec := (lookup (ascii "Retry-After") fields).elim 0 (parseRetryAfter · ctx.now) } := by
    simp only [ReplyContext.finalHead, framing, fields' (ascii "Content-Type") (by simp [replyFields]),
      fields' (ascii "Retry-After") (by simp [replyFields])]
    cases lookup (ascii "Retry-After") fields <;> rfl
  have classified : ctx.classify (responseHead status phrase fields) =
      .final (ctx.finalHead status (responseHead status phrase fields)) := by
    have text' : cString (responseHead status phrase fields) = responseHead status phrase fields := by
      refine takeWhile_whole ?_
      rw [responseHead, List.mem_append, not_or]
      exact ⟨joinLines_not_mem lines, by decide⟩
    have parsed : parseStatusLine (responseHead status phrase fields) = some (status : Int) := by
      have shape : responseHead status phrase fields = statusLine status phrase ++
          13 :: 10 :: (joinLines (fields.map Field.line) ++ [13, 10]) := by simp [responseHead, joinLines]
      rw [shape]
      exact parseStatusLine_head ⟨by omega, code.2⟩ _
    have final : (status : Int) ≠ 101 ∧ statusIsInterim status = false := by
      simp only [statusIsInterim, decide_eq_false_iff_not]
      omega
    have within : ¬((body.length : Int) ≥ 0 ∧ (body.length : Int).toNat > ctx.maxBody) := by
      simp only [Int.toNat_natCast]
      omega
    simp only [ReplyContext.classify, text', parsed, final, if_false, Bool.false_eq_true]
    rw [if_neg]
    rw [head]
    exact within
  rw [classified, head]
  have taken : bodyOfLength body.length (body ++ later) =
      .ok { content := body, after := later, toClose := false } := by
    simp [bodyOfLength]
  simp only [ReplyContext.body, Bool.false_eq_true, if_false, Int.natCast_nonneg, ge_iff_le, if_true,
    Int.toNat_natCast, taken]
  rfl

/-- With the fields that the servers add. -/
theorem reply_framed (ctx : ReplyContext) (interims : Nat) (code : 200 ≤ status ∧ status ≤ 999)
    (text : ∀ c ∈ phrase, c ≠ 0 ∧ c ≠ 10) (unframed : Unframed fields) {keepAlive : Bool} {counted : Option Nat}
    (short : (responseHead status phrase (fields ++ ownFields keepAlive counted)).length ≤ headerBudget)
    {body : Bytes} (sized : if responseHasNoBody status ctx.headRequest then body = [] else counted = some body.length)
    (fits : body.length ≤ ctx.maxBody ∧ (body.length : Int) ≤ longMax) (later : Bytes) :
    ctx.reply interims (responseHead status phrase (fields ++ ownFields keepAlive counted) ++ body ++ later) = .ok
      { response :=
          { statusCode := status, contentType := lookup (ascii "Content-Type") fields, body
            retryAfterSec := (lookup (ascii "Retry-After") fields).elim 0 (parseRetryAfter · ctx.now) }
        after := later, toClose := false } := by
  have plain : ∀ f ∈ fields ++ ownFields keepAlive counted, f.Plain := fun f inside =>
    (List.mem_append.mp inside).elim (fun inside => (unframed f inside).1) (ownFields_plain f)
  have unchunked : lookup (ascii "Transfer-Encoding") (fields ++ ownFields keepAlive counted) = none := by
    rw [lookup_append, lookup_none fun f inside => (unframed f inside).2.2, ownFields_lookup (by decide) (by decide)]
    rfl
  have counts : if responseHasNoBody status ctx.headRequest then body = []
      else lookup (ascii "Content-Length") (fields ++ ownFields keepAlive counted) = some (decimal body.length) := by
    split at sized
    · rwa [if_pos ‹_›]
    · rw [if_neg ‹_›, sized, lookup_append, lookup_none fun f inside => (unframed f inside).2.1]
      simp [ownFields, lookup, lengthField, Field.named]
  rw [reply_head ctx interims code text plain short unchunked counts fits later, lookup_append, lookup_append,
    ownFields_lookup (by decide) (by decide), ownFields_lookup (by decide) (by decide), Option.or_none, Option.or_none]

end Heads

end WolfCert.Server
