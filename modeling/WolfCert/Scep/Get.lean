import WolfCert.CLib.Base64
import WolfCert.Http.UrlParts
import WolfCert.Scep.Approval
import WolfCert.Scep.Client
import WolfCert.Server.HeadLines

/-!
# PKIOperation over GET

The pkiMessage in the query of a URL: how the client builds it, and how `handle_request` and
`handle_pki_op_get` of `scep_server.c` take it out again.
-/

namespace WolfCert.Scep

open WolfCert.CLib WolfCert.Server

/-! ## The server -/

/-- The query of a request target: what follows its first question mark. -/
def requestQuery (target : Bytes) : Bytes :=
  match strchr 63 (cString target) with
  | none => []
  | some found => found.tail

/-- The loop of `query_param`; every turn goes past an ampersand. -/
def queryParamFrom (key : Bytes) : Nat → Bytes → Option Bytes
  | 0, _ => none
  | fuel + 1, p =>
      if p = [] then none
      else if key <+: p ∧ charAt (p.drop key.length) = 61 then some (p.drop (key.length + 1))
      else
        match strchr 38 p with
        | none => none
        | some found => queryParamFrom key fuel found.tail

def queryParam (query key : Bytes) : Option Bytes := queryParamFrom key (query.length + 1) query

/-- Percent-decoding; an escape that is cut or has other digits is an error. -/
def percentDecode : Bytes → Option Bytes
  | [] => some []
  | [c] => if c = 37 then none else some [c]
  | [c, d] => if c = 37 then none else (percentDecode [d]).map (c :: ·)
  | c :: hi :: lo :: rest =>
      if c = 37 then
        match hexDigit hi, hexDigit lo with
        | some h, some l => (percentDecode rest).map (UInt8.ofNat (h * 16 + l) :: ·)
        | _, _ => none
      else (percentDecode (hi :: lo :: rest)).map (c :: ·)

def badRequest (rc : Rc) : ScepRefusal := (rc, .text 400 (ascii "Bad Request"))

inductive ScepRoute where
  | badRequest
  | getCaCaps
  | getNextCaCert
  | getCaCert
  | pkiOperationPost
  | pkiOperationGet
  | notFound
deriving DecidableEq, Repr

/-- Which handler `handle_request` calls; only the front of the operation is compared. -/
def scepRoute (req : ServerRequest) : ScepRoute :=
  match queryParam (requestQuery req.target) (ascii "operation") with
  | none => .badRequest
  | some op =>
      if ascii "GetCACaps" <+: op ∧ cString req.method = ascii "GET" then .getCaCaps
      else if ascii "GetNextCACert" <+: op ∧ cString req.method = ascii "GET" then .getNextCaCert
      else if ascii "GetCACert" <+: op ∧ cString req.method = ascii "GET" then .getCaCert
      else if ascii "PKIOperation" <+: op ∧ cString req.method = ascii "POST" then .pkiOperationPost
      else if ascii "PKIOperation" <+: op ∧ cString req.method = ascii "GET" then .pkiOperationGet
      else .notFound

section

variable {σ : Type}

/-- The pkiMessage of a GET. -/
def getMessage (env : WolfCrypt σ) (query : Bytes) : Prog σ ScepRefusal Bytes :=
  match queryParam query (ascii "message") with
  | none => Prog.fail (badRequest .errProtocol)
  | some m => do
      let enc := m.takeWhile (· != 38)
      Prog.mapError serverError (env.allocate (enc.length + 1))
      match percentDecode enc with
      | none => Prog.fail (badRequest .errProtocol)
      | some b64 => Prog.mapError badRequest (base64Decode env b64)

def handlePkiOpGet (env : ScepServerEnv σ) (srv : ScepServer) (query : Bytes) :
    Prog (ScepWorld σ) ScepRefusal ScepReply := do
  let der ← aside (getMessage env.toWolfCrypt query)
  handlePkiOp env srv der

end

/-! ## Percent-encoding -/

/-- The text `url_encode` writes. -/
def percentEncode (input : Bytes) : Bytes :=
  input.flatMap fun c => if isUnreserved c then [c] else 37 :: hexEncode true [c]

theorem hexEncode_byte (c : UInt8) : ∃ hi lo, hexEncode true [c] = [hi, lo] ∧
    isUnreserved hi = true ∧ isUnreserved lo = true ∧
    ∃ h l, hexDigit hi = some h ∧ hexDigit lo = some l ∧ UInt8.ofNat (h * 16 + l) = c := by
  have all (n : Nat) (small : n < 16) : isUnreserved ((ascii "0123456789ABCDEF").getD n 0) = true ∧
      hexDigit ((ascii "0123456789ABCDEF").getD n 0) = some n := by
    have every : ∀ k : Fin 16, isUnreserved ((ascii "0123456789ABCDEF").getD k.val 0) = true ∧
        hexDigit ((ascii "0123456789ABCDEF").getD k.val 0) = some k.val := by decide +kernel
    exact every ⟨n, small⟩
  have high : (c >>> 4).toNat = c.toNat / 16 := by
    rw [UInt8.toNat_shiftRight, Nat.shiftRight_eq_div_pow]
    rfl
  have low : (c &&& 15).toNat = c.toNat % 16 := by
    rw [UInt8.toNat_and]
    exact Nat.and_two_pow_sub_one_eq_mod c.toNat 4
  have small := c.toNat_lt
  obtain ⟨plain, value⟩ := all (c >>> 4).toNat (by omega)
  obtain ⟨plain', value'⟩ := all (c &&& 15).toNat (by omega)
  refine ⟨_, _, rfl, plain, plain', _, _, value, value', ?_⟩
  rw [high, low, Nat.div_add_mod']
  exact UInt8.ofNat_toNat

theorem percentDecode_plain {c : UInt8} (plain : c ≠ 37) (rest : Bytes) :
    percentDecode (c :: rest) = (percentDecode rest).map (c :: ·) := by
  match rest with
  | [] => simp [percentDecode, plain]
  | [d] => simp [percentDecode, plain]
  | hi :: lo :: rest => simp [percentDecode, plain]

theorem percentDecode_encode (input : Bytes) : percentDecode (percentEncode input) = some input := by
  induction input with
  | nil => rfl
  | cons c input ih =>
      have split : percentEncode (c :: input) =
          (if isUnreserved c then [c] else 37 :: hexEncode true [c]) ++ percentEncode input := rfl
      rw [split]
      split
      · rename_i plain
        have other : c ≠ 37 := by
          rintro rfl
          revert plain
          decide
        rw [List.singleton_append, percentDecode_plain other, ih]
        rfl
      · obtain ⟨hi, lo, shape, -, -, h, l, high, low, same⟩ := hexEncode_byte c
        simp only [shape, List.cons_append, List.nil_append, percentDecode, if_true, high, low, ih]
        rw [same]
        rfl

theorem percentEncode_chars {input : Bytes} {c : UInt8} (inside : c ∈ percentEncode input) :
    isUnreserved c = true ∨ c = 37 := by
  obtain ⟨b, -, inside⟩ := List.mem_flatMap.mp inside
  split at inside
  · rename_i plain
    rw [List.mem_singleton.mp inside]
    exact .inl plain
  · obtain ⟨hi, lo, shape, plain, plain', -⟩ := hexEncode_byte b
    rw [shape] at inside
    simp only [List.mem_cons, List.not_mem_nil, or_false] at inside
    rcases inside with rfl | rfl | rfl
    · exact .inr rfl
    · exact .inl plain
    · exact .inl plain'

/-! ## Query parameters -/

/-- The query has no parameter of that name: `key=` stands neither at its start nor behind `&`. -/
def NoParam (key query : Bytes) : Prop :=
  ∀ before after, query = before ++ key ++ 61 :: after → before ≠ [] ∧ before.getLast? ≠ some 38

/-- A parameter is not looked up in what is before it. -/
theorem queryParamFrom_skip {key query rest : Bytes} {fuel : Nat} (plain : 38 ∉ key)
    (absent : NoParam key query) (enough : (query ++ 38 :: rest).length < fuel) :
    ∃ fuel', rest.length < fuel' ∧
      queryParamFrom key fuel (query ++ 38 :: rest) = queryParamFrom key fuel' rest := by
  generalize size : query.length = n
  induction n using Nat.strongRecOn generalizing query fuel with
  | ind n ih =>
      obtain ⟨fuel, rfl⟩ : ∃ k, fuel = k + 1 := ⟨fuel - 1, by omega⟩
      have some : query ++ 38 :: rest ≠ [] := by simp
      have other : ¬(key <+: query ++ 38 :: rest ∧ charAt ((query ++ 38 :: rest).drop key.length) = 61) := by
        rintro ⟨⟨after, whole⟩, equals⟩
        rw [← whole, List.drop_left] at equals
        cases after with
        | nil => cases equals
        | cons b after =>
            obtain rfl : b = 61 := equals
            -- The first ampersand is behind the name, so the name lies in the query.
            have longer : key ++ [61] <+: query := by
              have front : key ++ [61] <+: query ++ 38 :: rest := ⟨after, by simp [whole]⟩
              rcases Nat.lt_or_ge query.length (key ++ [61]).length with long | short
              · have inside : query ++ [38] <+: key ++ [61] :=
                  List.prefix_of_prefix_length_le ⟨rest, by simp⟩ front (by simp at long ⊢; omega)
                have ampersand := inside.subset (List.mem_append_right query (List.mem_singleton_self 38))
                simp [plain] at ampersand
              · exact List.prefix_of_prefix_length_le front (List.prefix_append _ _) short
            obtain ⟨later, shape⟩ := longer
            exact (absent [] later (by simp [← shape])).1 rfl
      simp only [queryParamFrom, if_neg some, if_neg other]
      by_cases amp : 38 ∈ query
      · obtain ⟨front, later, rfl, first⟩ := List.eq_append_cons_of_mem amp
        rw [List.append_assoc, List.cons_append, strchr_of_not_mem first]
        have enough' : (later ++ 38 :: rest).length < fuel := by
          simp only [List.length_append, List.length_cons] at enough ⊢
          omega
        refine ih later.length (by rw [← size]; simp; omega) (fun before after shape => ?_) enough' rfl
        have outer := absent (front ++ 38 :: before) after (by simp [shape])
        constructor
        · rintro rfl
          simp at outer
        · intro last
          apply outer.2
          rw [List.getLast?_append, List.getLast?_cons, last]
          rfl
      · rw [strchr_of_not_mem amp]
        refine ⟨fuel, ?_, rfl⟩
        simp only [List.length_append, List.length_cons] at enough
        omega

theorem queryParamFrom_found {key value : Bytes} {fuel : Nat} (enough : 0 < fuel) :
    queryParamFrom key fuel (key ++ 61 :: value) = some value := by
  obtain ⟨fuel, rfl⟩ : ∃ k, fuel = k + 1 := ⟨fuel - 1, by omega⟩
  have some : key ++ 61 :: value ≠ [] := by simp
  have here : key <+: key ++ 61 :: value ∧ charAt ((key ++ 61 :: value).drop key.length) = 61 := by
    simp [charAt]
  rw [queryParamFrom, if_neg some, if_pos here, List.drop_append]
  simp

/-- What stands before the parameters the client adds: nothing, or a query and an ampersand. -/
inductive QueryFront : Bytes → Prop where
  | empty : QueryFront []
  | query {query : Bytes} (operation : NoParam (ascii "operation") query)
      (message : NoParam (ascii "message") query) : QueryFront (query ++ [38])

theorem QueryFront.operation {front rest : Bytes} (before : QueryFront front) :
    queryParam (front ++ (ascii "operation" ++ 61 :: rest)) (ascii "operation") = some rest := by
  unfold queryParam
  cases before with
  | empty => exact queryParamFrom_found (Nat.succ_pos _)
  | query operation _ =>
      rw [List.append_assoc, List.singleton_append]
      obtain ⟨fuel, enough, skipped⟩ := queryParamFrom_skip (by decide) operation (Nat.lt_succ_self _)
      rw [skipped]
      exact queryParamFrom_found (Nat.zero_lt_of_lt enough)

theorem QueryFront.message {front value : Bytes} (before : QueryFront front) :
    queryParam (front ++ (ascii "operation=PKIOperation" ++ 38 :: (ascii "message" ++ 61 :: value)))
      (ascii "message") = some value := by
  have last {fuel : Nat} (enough : (ascii "operation=PKIOperation" ++ 38 ::
      (ascii "message" ++ 61 :: value)).length < fuel) : queryParamFrom (ascii "message") fuel
        (ascii "operation=PKIOperation" ++ 38 :: (ascii "message" ++ 61 :: value)) = some value := by
    have other : NoParam (ascii "message") (ascii "operation=PKIOperation") := by
      intro first after shape
      have letter : (109 : UInt8) ∈ ascii "operation=PKIOperation" := by
        rw [shape]
        exact List.mem_append_left _ (List.mem_append_right _ (by decide))
      exact absurd letter (by decide)
    obtain ⟨fuel', enough', skipped⟩ := queryParamFrom_skip (by decide) other enough
    rw [skipped]
    exact queryParamFrom_found (Nat.zero_lt_of_lt enough')
  unfold queryParam
  cases before with
  | empty => exact last (Nat.lt_succ_self _)
  | query _ message =>
      rw [List.append_assoc, List.singleton_append]
      obtain ⟨fuel, enough, skipped⟩ := queryParamFrom_skip (by decide) message (Nat.lt_succ_self _)
      rw [skipped]
      exact last enough

/-! ## The URL -/

section

variable {σ : Type} {env : WolfCrypt σ} {base : Bytes} {u : Http.Url}

/-- What the client puts behind the base URL. -/
def getTail (base b64 : Bytes) : Bytes :=
  (if base.contains 63 then 38 else 63) :: (ascii "operation=PKIOperation" ++
    38 :: (ascii "message" ++ 61 :: percentEncode b64))

theorem buildPkiGetUrl_eq {w w' : σ} {pki url : Bytes}
    (built : buildPkiGetUrl env base pki w = some (.ok url, w')) :
    ∃ b64, env.base64EncodeNoNl pki = some b64 ∧ url = base ++ getTail base b64 ∧
      url.length < scepMaxGetUrl := by
  simp only [buildPkiGetUrl, base64Encode, urlEncode, appendQuery, Prog.bind_ok_iff,
    Prog.callMap_ok_iff, Prog.require_ok_iff, Prog.pure_apply, Option.some.injEq, Prod.mk.injEq,
    Except.ok.injEq] at built
  obtain ⟨b64, _, ⟨_, _, -, encoded⟩, _, _, ⟨_, _, -, rfl, -⟩, _, _, ⟨_, _, -, rfl, -⟩, _, _,
    ⟨short, -⟩, _, _, -, rfl, -⟩ := built
  have encodes : (b64.flatMap fun c => if isUnreserved c then [c] else 37 :: hexEncode true [c]) =
      percentEncode b64 := rfl
  rw [encodes] at short ⊢
  have text : base ++ (if base.contains 63 then ascii "&" else ascii "?") ++ ascii "operation=" ++
      ascii "PKIOperation" ++ ascii "&message=" ++ percentEncode b64 = base ++ getTail base b64 := by
    have joined : ascii "operation=" ++ (ascii "PKIOperation" ++ (ascii "&message=" ++
        percentEncode b64)) = ascii "operation=PKIOperation" ++
          38 :: (ascii "message" ++ 61 :: percentEncode b64) := rfl
    simp only [getTail, List.append_assoc, joined]
    split <;> rfl
  refine ⟨b64, ?_, text, ?_⟩
  · split at encoded
    · cases encoded
    · rename_i found
      cases encoded
      exact found
  · have mark : (ascii "&message=").length = 9 := rfl
    simp only [List.length_append, mark] at short ⊢
    omega

/-- A base URL with no `#`, space or control character, no `?` in its host and no operation or message
in its query. -/
structure PlainBase (base : Bytes) (u : Http.Url) : Prop where
  chars : ∀ c ∈ base, 32 < c ∧ c ≠ 35
  host : 63 ∉ u.host
  params : ∀ front query, base = front ++ 63 :: query → 63 ∉ front →
    NoParam (ascii "operation") query ∧ NoParam (ascii "message") query

/-- A character of the text the client adds. -/
theorem getTail_chars {b64 : Bytes} {c : UInt8} (inside : c ∈ getTail base b64) :
    32 < c ∧ c ≠ 35 ∧ c ≠ 58 := by
  have encoded {c : UInt8} (plain : isUnreserved c = true ∨ c = 37) : 32 < c ∧ c ≠ 35 ∧ c ≠ 58 := by
    revert plain
    simp only [isUnreserved, Bool.or_eq_true, Bool.and_eq_true, decide_eq_true_eq, beq_iff_eq,
      UInt8.le_iff_toNat_le, UInt8.lt_iff_toNat_lt, ne_eq, ← UInt8.toNat_inj, UInt8.reduceToNat]
    omega
  have fixed : ∀ c ∈ ascii "operation=PKIOperation" ++ 38 :: (ascii "message" ++ [61]),
      32 < c ∧ c ≠ 35 ∧ c ≠ 58 := by decide +kernel
  rcases List.mem_cons.mp inside with mark | inside
  · split at mark
    · subst mark
      decide
    · subst mark
      decide
  · have split : ascii "operation=PKIOperation" ++ 38 :: (ascii "message" ++ 61 :: percentEncode b64) =
        (ascii "operation=PKIOperation" ++ 38 :: (ascii "message" ++ [61])) ++ percentEncode b64 := by
      simp
    rw [split, List.mem_append] at inside
    rcases inside with front | text
    · exact fixed c front
    · exact encoded (percentEncode_chars text)

section

variable {hostStart hostEnd target b64 : Bytes} {port : Int}

theorem PlainBase.not_mem (plain : PlainBase base u) : 0 ∉ base ∧ 35 ∉ base :=
  ⟨fun inside => absurd (plain.chars 0 inside).1 (by decide), fun inside => (plain.chars 35 inside).2 rfl⟩

theorem PlainBase.append (plain : PlainBase base u)
    (parts : Http.UrlParts base u hostStart hostEnd target port)
    (short : (base ++ getTail base b64).length < scepMaxGetUrl) :
    Http.UrlParts (base ++ getTail base b64) { u with path := u.path ++ getTail base b64 }
        (hostStart ++ getTail base b64) (hostEnd ++ getTail base b64) (target ++ getTail base b64) port ∧
      u.host.length + (u.path ++ getTail base b64).length ≤ scepMaxGetUrl := by
  obtain ⟨text, fragment⟩ := plain.not_mem
  obtain ⟨used, split, -, hosts⟩ := parts.used text plain.host
  have path : u.path.length ≤ target.length + 1 := by
    rw [parts.path, Http.targetPath]
    have shorter := (List.takeWhile_prefix (l := target) (· != 35)).length_le
    split
    · exact Nat.le_succ_of_le shorter
    · exact Nat.succ_le_succ shorter
  have hosts := hosts.length_le
  have size := congrArg List.length split
  simp only [List.length_append] at short size ⊢
  refine ⟨parts.append text fragment plain.host (fun inside => (getTail_chars inside).2.2 rfl)
    (fun inside => (getTail_chars inside).2.1 rfl) ?_ ?_, by omega⟩
  · intro c first
    obtain rfl : (if base.contains 63 then 38 else 63) = c := by simpa [getTail] using first
    split
    · rename_i mark
      exact .inr ⟨rfl, by simpa using mark⟩
    · exact .inl rfl
  · have limits : scepMaxGetUrl = Http.maxPathLen := rfl
    omega

theorem requestQuery_eq {front query : Bytes} (text : 0 ∉ front ++ 63 :: query) (first : 63 ∉ front) :
    requestQuery (front ++ 63 :: query) = query := by
  have whole : cString (front ++ 63 :: query) = front ++ 63 :: query := by
    have appended := cString_append_of_not_mem text []
    rwa [List.append_nil, show cString [] = [] from rfl, List.append_nil] at appended
  rw [requestQuery, whole, strchr_of_not_mem first]
  rfl

/-- The query of the request target is what the client added, behind what the base URL had. -/
theorem PlainBase.query (plain : PlainBase base u)
    (parts : Http.UrlParts base u hostStart hostEnd target port) (b64 : Bytes) :
    ∃ front, QueryFront front ∧ requestQuery (u.path ++ getTail base b64) =
      front ++ (ascii "operation=PKIOperation" ++ 38 :: (ascii "message" ++ 61 :: percentEncode b64)) := by
  obtain ⟨text, fragment⟩ := plain.not_mem
  obtain ⟨used, split, before, -⟩ := parts.used text plain.host
  have clear : 35 ∉ target := fun inside => fragment (by rw [split]; simp [inside])
  have whole := takeWhile_whole clear
  obtain ⟨slash, path, letter⟩ : ∃ slash, u.path = slash ++ target ∧ ∀ c ∈ slash, c = 47 := by
    rw [parts.path, Http.targetPath, whole]
    split
    · exact ⟨[], rfl, by simp⟩
    · exact ⟨[47], rfl, by simp⟩
  have text' : 0 ∉ u.path ++ getTail base b64 := by
    intro inside
    rw [path, List.append_assoc, List.mem_append, List.mem_append] at inside
    rcases inside with nul | nul | nul
    · exact absurd (letter 0 nul) (by decide)
    · exact text (by rw [split]; simp [nul])
    · exact absurd (getTail_chars nul).1 (by decide)
  have other : 63 ∉ slash := fun inside => absurd (letter 63 inside) (by decide)
  by_cases mark : 63 ∈ base
  · have there : 63 ∈ target := by
      rw [split, List.mem_append] at mark
      exact mark.resolve_left before
    obtain ⟨front, query, shape, first⟩ := List.eq_append_cons_of_mem there
    obtain ⟨operation, message⟩ := plain.params (used ++ front) query (by rw [split, shape]; simp)
      (by simp [before, first])
    refine ⟨query ++ [38], .query operation message, ?_⟩
    have cut : u.path ++ getTail base b64 = (slash ++ front) ++ 63 :: (query ++ [38] ++
        (ascii "operation=PKIOperation" ++ 38 :: (ascii "message" ++ 61 :: percentEncode b64))) := by
      simp [path, shape, getTail, mark]
    rw [cut] at text' ⊢
    exact requestQuery_eq text' (by simp [other, first])
  · have none : 63 ∉ u.path := by
      rw [path, List.mem_append, not_or]
      exact ⟨other, fun inside => mark (by rw [split]; simp [inside])⟩
    refine ⟨[], .empty, ?_⟩
    have cut : u.path ++ getTail base b64 = u.path ++ 63 ::
        (ascii "operation=PKIOperation" ++ 38 :: (ascii "message" ++ 61 :: percentEncode b64)) := by
      simp [getTail, mark]
    rw [cut] at text' ⊢
    exact requestQuery_eq text' none

/-! ## The request -/

/-- The request line and the header lines of a GET. -/
def getLine (path : Bytes) : Bytes := ascii "GET" ++ 32 :: (path ++ 32 :: ascii "HTTP/1.1")

def lengthLine : Bytes := ascii "Content-Length: 0"

def getLines (keepAlive : Bool) (u : Http.Url) : List Bytes :=
  [hostLine u, agentLine, connectionLine keepAlive, lengthLine]

theorem getLines_eq (keepAlive : Bool) (u : Http.Url) (url pki : Bytes) :
    getLines keepAlive u = fieldLines keepAlive (scepRequest url pki false) u none := by
  have length : ascii "Content-Length: " ++ decimal 0 = lengthLine := by decide +kernel
  rw [getLines, ← length]
  rfl

theorem headText_get (keepAlive : Bool) (u : Http.Url) (url pki : Bytes) :
    Http.headText keepAlive (scepRequest url pki false) u [] =
      joinLines (getLine u.path :: getLines keepAlive u) ++ [13, 10] := by
  rw [getLines_eq keepAlive u url pki]
  exact headText_lines keepAlive (scepRequest url pki false) u none

theorem hostLine_length (parts : Http.UrlParts base u hostStart hostEnd target port) :
    (hostLine u).length ≤ u.host.length + 14 := by
  have ports : (Http.portFragment u).length ≤ 6 := by
    have range := parts.port_range
    have digits := decimal_length (n := u.port.toNat) (by omega)
    have colon : (ascii ":").length = 1 := rfl
    unfold Http.portFragment
    split
    · rw [List.length_append]
      omega
    · exact Nat.zero_le _
  have name : (ascii "Host: ").length = 6 := rfl
  have bracket (literal : Bool) : (if literal then ascii "[" else []).length ≤ 1 ∧
      (if literal then ascii "]" else []).length ≤ 1 := by
    cases literal <;> decide
  have brackets := bracket (Http.hostIsIpLiteral u.host)
  simp only [hostLine, List.length_append, name]
  omega

/-- The framing of a GET. -/
def getFraming (keepAlive : Bool) : ReqFraming where
  http10 := false
  contentLength := 0
  clSeen := true
  chunked := false
  close := !keepAlive
  keepAlive := keepAlive

theorem ciCmp_self (text : Bytes) : Http.ciCmp text text = 0 := by
  induction text with
  | nil => rfl
  | cons c text ih => simpa [Http.ciCmp] using ih

section Head

variable {url pki : Bytes} {u' : Http.Url} {keepAlive : Bool} {hostStart' hostEnd' target' : Bytes}
  {port' : Int}

theorem requestHead_ok {w w' : σ} {head : Bytes}
    (parts : Http.UrlParts url u' hostStart' hostEnd' target' port')
    (run : Http.requestHead env.toEnv w u keepAlive (scepRequest url pki false) = (.ok head, w')) :
    head = joinLines (getLine u'.path :: getLines keepAlive u') ++ [13, 10] ∧
      head.length < 1024 + u'.host.length + u'.path.length := by
  unfold Http.requestHead at run
  cases parsed : Http.httpUrlParse env.toEnv w (scepRequest url pki false).url with
  | mk result v =>
      rw [parsed] at run
      cases result with
      | error rc => cases run
      | ok found =>
          obtain ⟨_, _, _, _, parts'⟩ := Http.httpUrlParse_parts parsed
          obtain rfl := parts.unique parts'
          simp only at run
          split at run
          · cases run
          · have anonymous : (scepRequest url pki false).basicUser = none := rfl
            simp only [Http.buildHead, anonymous, Http.formatHead] at run
            obtain ⟨v', run⟩ := Http.withAlloc_ok (by simp) run
            split at run
            · cases run
            · rename_i fits
              simp only [Prod.mk.injEq, Except.ok.injEq] at run
              obtain ⟨rfl, -⟩ := run
              refine ⟨headText_get keepAlive u' url pki, ?_⟩
              have cap : Http.headCap (scepRequest url pki false) u' [] =
                  1024 + u'.host.length + u'.path.length := rfl
              rw [← cap]
              exact Nat.not_le.mp fits

theorem requestHead_granted (granted : ∀ w n, (env.alloc w n).1 = true)
    (parts : Http.UrlParts url u' hostStart' hostEnd' target' port')
    (tls : u'.tls = u.tls) (ports : u'.port = u.port) (hosts : u'.host = u.host) (w : σ) :
    ∃ head w', Http.requestHead env.toEnv w u keepAlive (scepRequest url pki false) = (.ok head, w') := by
  obtain ⟨v, parsed⟩ := parts.parses granted w
  have same : ¬(u'.tls ≠ u.tls ∨ u'.port ≠ u.port ∨ Http.ciCmp u'.host u.host ≠ 0) := by
    simp [tls, ports, hosts, ciCmp_self]
  have short : ¬(Http.headText keepAlive (scepRequest url pki false) u' []).length ≥
      Http.headCap (scepRequest url pki false) u' [] := by
    have cap : Http.headCap (scepRequest url pki false) u' [] =
        1024 + u'.host.length + u'.path.length := rfl
    have host := hostLine_length parts
    have fixed : (ascii "GET").length = 3 ∧ (ascii "HTTP/1.1").length = 8 ∧ agentLine.length = 26 ∧
        lengthLine.length = 17 := by decide +kernel
    have connection : (connectionLine keepAlive).length ≤ 22 := by cases keepAlive <;> decide
    rw [headText_get, cap]
    simp only [joinLines, getLines, getLine, List.flatMap_cons, List.flatMap_nil, List.length_append,
      List.length_cons, List.length_nil]
    omega
  have url' : (scepRequest url pki false).url = url := rfl
  have anonymous : (scepRequest url pki false).basicUser = none := rfl
  simp only [Http.requestHead, url', parsed, if_neg same, Http.buildHead, anonymous, Http.formatHead,
    Http.withAlloc_granted granted, if_neg short]
  exact ⟨_, _, rfl⟩

end Head

end

end

/-! ## The round trip -/

/-- The message is taken out of the query it was put into. -/
theorem getMessage_ok {τ : Type} {server : WolfCrypt τ} (granted : ∀ w n, (server.alloc w n).1 = true)
    {query b64 pki : Bytes} (found : queryParam query (ascii "message") = some (percentEncode b64))
    (decodes : server.base64Decode b64 = .ok pki) (v : τ) :
    ∃ v', getMessage server query v = some (.ok pki, v') := by
  have escaped : 38 ∉ percentEncode b64 := fun inside => absurd (percentEncode_chars inside) (by decide)
  have whole := takeWhile_whole escaped
  let size := (percentEncode b64).length + 1
  let v₁ := (server.alloc v size).2
  have decoded : base64Decode server b64 v₁ = some (.ok pki, (server.alloc v₁ (max b64.length 4)).2) :=
    Prog.bind_ok_iff.mpr ⟨(), _, WolfCrypt.allocate_granted granted _ v₁,
      Prog.callMap_ok_iff.mpr (by rw [decodes])⟩
  refine ⟨(server.alloc v₁ (max b64.length 4)).2, ?_⟩
  simp only [getMessage, found, whole, percentDecode_encode]
  exact Prog.bind_ok_iff.mpr ⟨(), v₁, Prog.mapError_ok_iff.mpr (WolfCrypt.allocate_granted granted _ v),
    Prog.mapError_ok_iff.mpr decoded⟩

/-- The operation and the message that a server finds in a request. -/
structure Recovers {τ : Type} (server : ScepServerEnv τ) (pki : Bytes) (req : ServerRequest) : Prop where
  route : scepRoute req = .pkiOperationGet
  operation : ∃ op, queryParam (requestQuery req.target) (ascii "operation") = some op ∧
    op.takeWhile (· != 38) = ascii "PKIOperation"
  message : (∀ w n, (server.alloc w n).1 = true) → ∀ srv (s : ScepWorld τ), ∃ v,
    getMessage server.toWolfCrypt (requestQuery req.target) s.world = some (.ok pki, v) ∧
    handlePkiOpGet server srv (requestQuery req.target) s = handlePkiOp server srv pki { s with world := v }

theorem recovers {τ : Type} {server : ScepServerEnv τ} {req : ServerRequest} {front b64 pki : Bytes}
    (decodes : server.base64Decode b64 = .ok pki) (method : req.method = ascii "GET")
    (before : QueryFront front) (query : requestQuery req.target = front ++
      (ascii "operation=PKIOperation" ++ 38 :: (ascii "message" ++ 61 :: percentEncode b64))) :
    Recovers server pki req := by
  have operation : queryParam (requestQuery req.target) (ascii "operation") =
      some (ascii "PKIOperation" ++ 38 :: (ascii "message" ++ 61 :: percentEncode b64)) := by
    rw [query]
    exact before.operation
  have message : queryParam (requestQuery req.target) (ascii "message") = some (percentEncode b64) := by
    rw [query]
    exact before.message
  refine ⟨?_, ⟨_, operation, ?_⟩, fun granted srv s => ?_⟩
  · have get : cString req.method = ascii "GET" := by rw [method]; decide
    simp only [scepRoute, operation, get]
    rfl
  · have plain : ∀ c ∈ ascii "PKIOperation", (c != 38) = true := by decide +kernel
    rw [List.takeWhile_append_of_pos plain]
    simp
  · obtain ⟨v, found⟩ := getMessage_ok granted message decodes s.world
    refine ⟨v, found, ?_⟩
    have taken : aside (getMessage server.toWolfCrypt (requestQuery req.target)) s =
        some (.ok pki, { s with world := v }) := by
      simp [aside, found]
    exact Prog.bind_of_ok taken

/-- A GET that fits the buffer is read as its target. -/
theorem readRequest_get {u : Http.Url} {keepAlive : Bool} (hosts : ∀ c ∈ u.host, 32 < c)
    (paths : ∀ c ∈ u.path, 32 < c)
    (fits : (joinLines (getLine u.path :: getLines keepAlive u) ++ [13, 10]).length ≤
      httpReqBufSz + httpQuerySz - 1) (later : Bytes) (plan : List Nat) :
    ∃ trace c', readRequest .scep
        ⟨joinLines (getLine u.path :: getLines keepAlive u) ++ [13, 10] ++ later, plan, []⟩ =
          some (.ok (⟨ascii "GET", u.path, none, framingClose (getFraming keepAlive), []⟩, trace), c') ∧
      trace.bodyStart = (joinLines (getLine u.path :: getLines keepAlive u) ++ [13, 10]).length ∧
      trace.bodySize = 0 := by
  have visible {text : Bytes} (above : ∀ c ∈ text, 32 < c) : (∀ c ∈ text, c ≠ 0 ∧ c ≠ 10) ∧ 32 ∉ text := by
    refine ⟨fun c inside => ⟨?_, ?_⟩, fun inside => absurd (above 32 inside) (by decide)⟩
    · rintro rfl
      exact absurd (above 0 inside) (by decide)
    · rintro rfl
      exact absurd (above 10 inside) (by decide)
  have run : LineRun false ⟨framingInit (ascii "HTTP/1.1"), none⟩ (getLines keepAlive u)
      ⟨getFraming keepAlive, none⟩ := by
    rw [getLines_eq keepAlive u [] []]
    exact fieldLines_run (.inr rfl) (visible hosts).1 ⟨nofun, nofun, nofun⟩ (Nat.zero_le _) nofun
  have plain : PlainLine (getLine u.path) :=
    requestLine_plain (by decide +kernel) (visible paths).1
  have parsed : parseRequestLine (getLine u.path) = some ⟨ascii "GET", u.path, ascii "HTTP/1.1"⟩ :=
    parseRequestLine_requestLine (by decide) (by decide +kernel) (visible paths).2
  have stream : joinLines (getLine u.path :: getLines keepAlive u) ++ [13, 10] ++ later =
      joinLines (getLine u.path :: getLines keepAlive u) ++ 13 :: 10 :: later := by
    simp
  rw [stream]
  obtain ⟨trace, c', read, -, start, size⟩ :=
    readRequestIn_plain (c := ⟨_, plan, []⟩) (fun _ => true) plain run (by simpa using fits) rfl rfl parsed
      rfl fun d held _ _ => ⟨d, rfl⟩
  refine ⟨trace, c', ?_, by simpa using start, size⟩
  simp only [readRequest, scepReadRequest]
  rw [Prog.bind_of_ok (allocate_some rfl)]
  exact read

/-- A pkiMessage that the client puts into a GET is what the server takes out of it, however the
request arrives. -/
theorem pki_get_round_trip {σ τ : Type} {client : WolfCrypt σ} {server : ScepServerEnv τ}
    (inverts : ∀ input encoded, input ≠ [] → client.base64EncodeNoNl input = some encoded →
      server.base64Decode encoded = .ok input)
    {base pki url : Bytes} {u : Http.Url} {w₀ w₁ w w' : σ} (nonempty : pki ≠ [])
    (accepted : Http.httpUrlParse client.toEnv w₀ base = (.ok u, w₁)) (plain : PlainBase base u)
    (built : buildPkiGetUrl client base pki w = some (.ok url, w')) (keepAlive : Bool) :
    ((∀ w n, (client.alloc w n).1 = true) → ∀ v, ∃ head v',
      Http.requestHead client.toEnv v u keepAlive (scepRequest url pki false) = (.ok head, v')) ∧
    ∀ v head v', Http.requestHead client.toEnv v u keepAlive (scepRequest url pki false) = (.ok head, v') →
      head.length ≤ httpReqBufSz + httpQuerySz - 1 ∧
      ∀ later plan, ∃ req trace c', readRequest .scep ⟨head ++ later, plan, []⟩ =
          some (.ok (req, trace), c') ∧
        trace.bodyStart = head.length ∧ trace.bodySize = 0 ∧ Recovers server pki req := by
  obtain ⟨hostStart, hostEnd, target, port, parts⟩ := Http.httpUrlParse_parts accepted
  obtain ⟨b64, encoded, rfl, short⟩ := buildPkiGetUrl_eq built
  obtain ⟨parts', room⟩ := plain.append parts short
  obtain ⟨front, before, query⟩ := plain.query parts b64
  obtain ⟨text, -⟩ := plain.not_mem
  obtain ⟨used, split, -, hosts⟩ := parts.used text plain.host
  have visible : ∀ c ∈ u.host, 32 < c := by
    intro c inside
    exact (plain.chars c (by rw [split]; exact List.mem_append_left _ (hosts.subset inside))).1
  have paths : ∀ c ∈ u.path ++ getTail base b64, 32 < c := by
    intro c inside
    rcases List.mem_append.mp inside with path | tail
    · rcases parts.path_chars path with rfl | member
      · decide
      · exact (plain.chars c (by rw [split]; simp [member])).1
    · exact (getTail_chars tail).1
  refine ⟨fun granted v => requestHead_granted granted parts' rfl rfl rfl v, ?_⟩
  intro v head v' run
  obtain ⟨rfl, limit⟩ := requestHead_ok parts' run
  have fits : (joinLines (getLine (u.path ++ getTail base b64) :: getLines keepAlive
      { u with path := u.path ++ getTail base b64 }) ++ [13, 10]).length ≤
        httpReqBufSz + httpQuerySz - 1 := by
    have sizes : scepMaxGetUrl = 8192 ∧ httpReqBufSz + httpQuerySz - 1 = 10239 := ⟨rfl, rfl⟩
    dsimp only at limit
    omega
  refine ⟨fits, fun later plan => ?_⟩
  obtain ⟨trace, c', read, start, size⟩ :=
    readRequest_get (u := { u with path := u.path ++ getTail base b64 }) visible paths fits later plan
  exact ⟨_, trace, c', read, start, size, recovers (inverts pki b64 nonempty encoded) rfl before query⟩

/-! An environment with real base64. -/

def exampleGetClient : WolfCrypt Http.Wire :=
  { exampleScep (.ok ()) with
    alloc := fun w _ => (true, w)
    base64EncodeNoNl := fun input => some (Base64.encode input) }

def exampleGetServer : ScepServerEnv Http.Wire :=
  { exampleScep (.ok ()) with
    alloc := fun w _ => (true, w)
    base64Decode := fun input => .ok (Base64.decode input) }

def exampleBase : Bytes := ascii "http://h:8080/scep?ca=1"

def exampleBaseUrl : Http.Url where
  scheme := ascii "http"
  host := ascii "h"
  port := 8080
  path := ascii "/scep?ca=1"
  tls := false

theorem exampleBase_plain : PlainBase exampleBase exampleBaseUrl := by
  refine ⟨by decide +kernel, by decide +kernel, ?_⟩
  intro front query whole first
  have found : strchr 63 exampleBase = some (63 :: query) := by
    rw [whole]
    exact strchr_of_not_mem first query
  have there : strchr 63 exampleBase = some (63 :: ascii "ca=1") := by decide +kernel
  rw [there] at found
  cases found
  have short {key : Bytes} (long : 4 < key.length) : NoParam key (ascii "ca=1") := by
    intro before after shape
    have size := congrArg List.length shape
    have four : (ascii "ca=1").length = 4 := rfl
    rw [four, List.length_append, List.length_append] at size
    omega
  exact ⟨short (by decide), short (by decide)⟩

/-- A message of four bytes, two of which are escaped in the URL. -/
theorem pki_get_round_trip_four :
    ∃ url w', buildPkiGetUrl exampleGetClient exampleBase [0, 255, 254, 1] ⟨[], [], false, false⟩ =
        some (.ok url, w') ∧
      url = ascii "http://h:8080/scep?ca=1&operation=PKIOperation&message=AP%2F%2BAQ%3D%3D" ∧
      ∀ v head v', Http.requestHead exampleGetClient.toEnv v exampleBaseUrl true
          (scepRequest url [0, 255, 254, 1] false) = (.ok head, v') →
        head.length ≤ httpReqBufSz + httpQuerySz - 1 ∧
        ∀ later plan, ∃ req trace c', readRequest .scep ⟨head ++ later, plan, []⟩ =
            some (.ok (req, trace), c') ∧
          trace.bodyStart = head.length ∧ trace.bodySize = 0 ∧
          Recovers exampleGetServer [0, 255, 254, 1] req := by
  have inverts : ∀ input encoded, input ≠ [] → exampleGetClient.base64EncodeNoNl input = some encoded →
      exampleGetServer.base64Decode encoded = .ok input := by
    intro input encoded _ made
    cases made
    exact congrArg Except.ok (Base64.decode_encode input)
  have accepted : Http.httpUrlParse exampleGetClient.toEnv ⟨[], [], false, false⟩ exampleBase =
      (.ok exampleBaseUrl, ⟨[], [], false, false⟩) := by decide +kernel
  have built : buildPkiGetUrl exampleGetClient exampleBase [0, 255, 254, 1] ⟨[], [], false, false⟩ =
      some (.ok (ascii "http://h:8080/scep?ca=1&operation=PKIOperation&message=AP%2F%2BAQ%3D%3D"),
        ⟨[], [], false, false⟩) := by decide +kernel
  exact ⟨_, _, built, rfl,
    (pki_get_round_trip inverts (by decide) accepted exampleBase_plain built true).2⟩

end WolfCert.Scep
