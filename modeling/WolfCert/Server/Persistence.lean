import WolfCert.Server.ContentLength

/-!
# Whether a connection stays open

The framing is collected line by line. What it asks for after the response depends on the set of the
connection options alone, however the Connection fields cut them up.
-/

namespace WolfCert.Server

open WolfCert.CLib WolfCert.Http

variable {c c' : Conn}

/-- What follows the colon in the fields of one name. -/
def lineValues (name : Bytes) (lines : List Bytes) : List Bytes :=
  (lines.filter (httpHdrIs · name)).map fun line => line.drop (name.length + 1)

/-- The elements of a list: between its commas, without the blanks around them. -/
def elements (value : Bytes) : List Bytes := (value.splitOn 44).map trimOws

def connectionElements (lines : List Bytes) : List Bytes :=
  (lineValues connectionName lines).flatMap elements

/-- An element is this word, in whatever case. -/
def Says (lines : List Bytes) (word : String) : Prop :=
  ∃ e ∈ connectionElements lines, e.map ciLower = ascii word

/-- When RFC 9112 has the connection closed after the response. -/
def ClosesAfter (version : Bytes) (lines : List Bytes) : Prop :=
  Says lines "close" ∨ (version = ascii "HTTP/1.0" ∧ ¬Says lines "keep-alive") ∨
    ((∃ value ∈ lineValues teName lines, (trimOws value).map ciLower = ascii "chunked") ∧
      (lineValues clName lines ≠ [] ∨ version = ascii "HTTP/1.0"))

/-! ## Tokens -/

theorem asciiNcasecmp_of_map {text name : Bytes} (plain : ∀ b ∈ name, b ≠ 0)
    (same : (text.take name.length).map ciLower = name.map ciLower) :
    asciiNcasecmp text name name.length = 0 := by
  induction name generalizing text with
  | nil => rfl
  | cons b bs ih =>
      cases text with
      | nil => cases same
      | cons a as =>
          simp only [List.length_cons, List.take_succ_cons, List.map_cons, List.cons.injEq] at same
          have shown : ciLower b ≠ 0 := fun zero =>
            plain b List.mem_cons_self ((ciLower_eq_iff (by decide)).mp zero)
          have later := ih (fun d inside => plain d (List.mem_cons_of_mem _ inside)) same.2
          rw [List.length_cons, asciiNcasecmp]
          simpa [charAt, same.1, shown] using later

/-- A word that is told apart by `isToken`: no NUL and no capital in it. -/
def Lower (word : String) : Prop := (∀ b ∈ ascii word, b ≠ 0) ∧ (ascii word).map ciLower = ascii word

theorem isToken_iff {word : String} (lower : Lower word) (token : Bytes) :
    isToken token word = true ↔ token.map ciLower = ascii word := by
  simp only [isToken, decide_eq_true_eq]
  constructor
  · rintro ⟨size, same⟩
    have folded := asciiNcasecmp_name lower.1 same
    rwa [← size, List.take_length, lower.2] at folded
  · intro same
    have size : token.length = (ascii word).length := by rw [← same, List.length_map]
    refine ⟨size, asciiNcasecmp_of_map lower.1 ?_⟩
    rw [← size, List.take_length, same, lower.2]

theorem close_lower : Lower "close" := by
  constructor <;> decide +kernel

theorem keepAlive_lower : Lower "keep-alive" := by
  constructor <;> decide +kernel

theorem chunked_lower : Lower "chunked" := by
  constructor <;> decide +kernel

/-! ## Elements -/

theorem elements_comma (front rest : Bytes) :
    elements (front ++ 44 :: rest) = elements front ++ elements rest := by
  rw [elements, List.splitOn, List.splitOnP_append_cons _ _ (by decide), List.map_append]
  rfl

theorem elements_plain {value : Bytes} (plain : 44 ∉ value) : elements value = [trimOws value] := by
  rw [elements, List.splitOn, List.splitOnP_eq_singleton (beq_of_not_mem plain)]
  rfl

/-- A value has no comma, or a first one. -/
theorem comma_cases (value : Bytes) :
    44 ∉ value ∨ ∃ front rest, 44 ∉ front ∧ value = front ++ 44 :: rest := by
  by_cases inside : 44 ∈ value
  · obtain ⟨front, rest, shape, plain⟩ := List.eq_append_cons_of_mem inside
    exact .inr ⟨front, rest, plain, shape⟩
  · exact .inl inside

theorem trimOws_blanks {blanks value : Bytes} (blank : ∀ b ∈ blanks, isOws b = true) :
    trimOws (blanks ++ value) = trimOws value := by
  rw [trimOws, List.dropWhile_append_of_pos blank]
  rfl

theorem trimOws_dropWhile (value : Bytes) : trimOws (value.dropWhile isOws) = trimOws value := by
  conv_rhs => rw [← List.takeWhile_append_dropWhile (p := isOws) (l := value)]
  rw [trimOws_blanks fun b inside => List.mem_takeWhile_imp inside]

theorem elements_blanks {blanks : Bytes} (blank : ∀ b ∈ blanks, isOws b = true) (value : Bytes) :
    elements (blanks ++ value) = elements value := by
  have noComma : 44 ∉ blanks := fun inside => absurd (blank 44 inside) (by decide)
  rcases comma_cases value with plain | ⟨front, rest, plain, rfl⟩
  · rw [elements_plain plain, elements_plain (by simp [noComma, plain]), trimOws_blanks blank]
  · rw [← List.append_assoc, elements_comma, elements_comma, elements_plain plain,
      elements_plain (by simp [noComma, plain]), trimOws_blanks blank]

theorem elements_dropWhile (value : Bytes) : elements (value.dropWhile isOws) = elements value := by
  conv_rhs => rw [← List.takeWhile_append_dropWhile (p := isOws) (l := value)]
  rw [elements_blanks fun b inside => List.mem_takeWhile_imp inside]

/-! ## The options of one field -/

/-- The framing with the options of some elements. -/
def ReqFraming.withOptions (f : ReqFraming) (es : List Bytes) : ReqFraming :=
  { f with
    close := f.close || es.any (isToken · "close")
    keepAlive := f.keepAlive || es.any (isToken · "keep-alive") }

theorem withOptions_append (f : ReqFraming) (es es' : List Bytes) :
    (f.withOptions es).withOptions es' = f.withOptions (es ++ es') := by
  simp only [ReqFraming.withOptions, List.any_append, Bool.or_assoc]

/-- One element; no word is both options. -/
theorem withOptions_one (f : ReqFraming) (e : Bytes) :
    f.withOptions [e] =
      if isToken e "close" then { f with close := true }
      else if isToken e "keep-alive" then { f with keepAlive := true }
      else f := by
  cases closes : isToken e "close" with
  | true =>
      have other : isToken e "keep-alive" = false := by
        rw [Bool.eq_false_iff]
        intro keeps
        have word := (isToken_iff close_lower e).mp closes
        rw [(isToken_iff keepAlive_lower e).mp keeps] at word
        exact absurd word (by decide +kernel)
      simp [ReqFraming.withOptions, closes, other]
  | false =>
      cases keeps : isToken e "keep-alive" with
      | true => simp [ReqFraming.withOptions, closes, keeps]
      | false => simp [ReqFraming.withOptions, closes, keeps]

theorem connOptions_nil (fuel : Nat) (f : ReqFraming) : connOptions fuel [] f = f := by
  cases fuel <;> rfl

theorem connOptions_eq {fuel : Nat} {value : Bytes} (enough : value.length < fuel) (f : ReqFraming) :
    connOptions fuel value f = f.withOptions (elements value) := by
  induction fuel generalizing value f with
  | zero => omega
  | succ fuel ih =>
      by_cases empty : value = []
      · subst empty
        rw [connOptions_nil, elements_plain (by simp), withOptions_one]
        rfl
      · rw [connOptions, if_neg empty]
        dsimp only
        rw [← withOptions_one]
        rcases comma_cases value with plain | ⟨front, rest, plain, rfl⟩
        · rw [takeWhile_whole plain, List.dropWhile_eq_nil_iff.mpr (bne_of_not_mem plain), List.drop_nil,
            connOptions_nil, elements_plain plain]
        · rw [List.length_append, List.length_cons] at enough
          rw [takeWhile_front plain, dropWhile_front plain, List.drop_succ_cons, List.drop_zero,
            ih (by omega), withOptions_append, elements_comma, elements_plain plain]

/-! ## All the lines -/

/-- The framing that some accepted lines make of another one. -/
structure Accumulated (f : ReqFraming) (lines : List Bytes) (f' : ReqFraming) : Prop where
  http10 : f'.http10 = f.http10
  clSeen : f'.clSeen = (f.clSeen || lines.any (httpHdrIs · clName))
  chunked : f'.chunked = (f.chunked || lines.any (httpHdrIs · teName))
  coded : ∀ value ∈ lineValues teName lines, (trimOws value).map ciLower = ascii "chunked"
  close : f'.close = (f.close || (connectionElements lines).any (isToken · "close"))
  keepAlive : f'.keepAlive = (f.keepAlive || (connectionElements lines).any (isToken · "keep-alive"))

theorem lineValues_append (name : Bytes) (lines more : List Bytes) :
    lineValues name (lines ++ more) = lineValues name lines ++ lineValues name more := by
  simp [lineValues]

theorem connectionElements_append (lines more : List Bytes) :
    connectionElements (lines ++ more) = connectionElements lines ++ connectionElements more := by
  simp [connectionElements, lineValues_append]

theorem lineValues_one (name line : Bytes) :
    lineValues name [line] = if httpHdrIs line name then [line.drop (name.length + 1)] else [] := by
  cases here : httpHdrIs line name <;> simp [lineValues, here]

theorem Accumulated.nil (f : ReqFraming) : Accumulated f [] f := by
  constructor <;> simp [connectionElements, lineValues]

theorem Accumulated.append {f f₁ f' : ReqFraming} {lines more : List Bytes}
    (first : Accumulated f lines f₁) (later : Accumulated f₁ more f') : Accumulated f (lines ++ more) f' where
  http10 := later.http10.trans first.http10
  clSeen := by rw [later.clSeen, first.clSeen, List.any_append, Bool.or_assoc]
  chunked := by rw [later.chunked, first.chunked, List.any_append, Bool.or_assoc]
  coded value inside := by
    rw [lineValues_append, List.mem_append] at inside
    rcases inside with before | after
    · exact first.coded value before
    · exact later.coded value after
  close := by rw [later.close, first.close, connectionElements_append, List.any_append, Bool.or_assoc]
  keepAlive := by
    rw [later.keepAlive, first.keepAlive, connectionElements_append, List.any_append, Bool.or_assoc]

theorem not_named {line name other : Bytes} (field : FieldName name) (field' : FieldName other)
    (differ : name.map ciLower ≠ other.map ciLower) (here : httpHdrIs line name = true) :
    httpHdrIs line other = false := by
  rw [Bool.eq_false_iff]
  exact fun there => differ (httpHdrIs_same field field' here there)

theorem names_differ : clName.map ciLower ≠ teName.map ciLower ∧
    clName.map ciLower ≠ connectionName.map ciLower ∧ teName.map ciLower ≠ connectionName.map ciLower := by
  decide +kernel

theorem headerLine_accumulated {authorizes : Bool} {st st' : HeadState} {line after : Bytes}
    (run : headerLine authorizes st line after c = some (.ok st', c')) :
    Accumulated st.framing [line] st'.framing := by
  obtain ⟨clTe, clConnection, teConnection⟩ := names_differ
  rcases headerLine_cases run with ⟨length, same⟩ | ⟨length, coding, chunked, same⟩ |
    ⟨length, coding, options, fuel, enough, same⟩ | ⟨length, coding, options, same⟩
  · have coding := not_named clName_field teName_field clTe length
    have options := not_named clName_field connectionName_field clConnection length
    rw [same]
    constructor <;> simp [connectionElements, lineValues_one, length, coding, options]
  · have options := not_named teName_field connectionName_field teConnection coding
    have word := (isToken_iff chunked_lower _).mp chunked
    rw [trimOws_dropWhile] at word
    rw [same]
    constructor <;> simp [connectionElements, lineValues_one, length, coding, options, word]
  · rw [same, connOptions_eq enough, elements_dropWhile]
    constructor <;>
      simp [connectionElements, lineValues_one, length, coding, options, ReqFraming.withOptions]
  · rw [same]
    constructor <;> simp [connectionElements, lineValues_one, length, coding, options]

theorem headerLoop_accumulated {authorizes : Bool} {fuel : Nat} {p rest : Bytes} {st st' : HeadState}
    {lines : List Bytes}
    (run : headerLoop (headerLine authorizes) fuel p st c = some (.ok (st', lines, rest), c')) :
    Accumulated st.framing lines st'.framing := by
  induction lines generalizing fuel p st c with
  | nil =>
      rw [headerLoop_nil run]
      exact .nil _
  | cons line lines ih =>
      cases fuel with
      | zero => cases run
      | succ fuel =>
          obtain ⟨next, st₁, c₁, -, stepped, ran⟩ := headerLoop_cons run
          exact (headerLine_accumulated stepped).append (ih ran)

/-! ## The decision -/

theorem any_named {name : Bytes} {lines : List Bytes} :
    lines.any (httpHdrIs · name) = true ↔ lineValues name lines ≠ [] := by
  simp [lineValues, List.any_eq_true, List.filter_eq_nil_iff]

theorem any_isToken {word : String} (lower : Lower word) (lines : List Bytes) :
    (connectionElements lines).any (isToken · word) = true ↔ Says lines word := by
  simp only [List.any_eq_true, isToken_iff lower]
  rfl

/-- The server takes these lines of a request of that version, and this is the framing they give. -/
def Accepts (version : Bytes) (lines : List Bytes) (f : ReqFraming) : Prop :=
  ∃ authorizes fuel p st rest c c',
    headerLoop (headerLine authorizes) fuel p ⟨framingInit version, none⟩ c =
      some (.ok (st, lines, rest), c') ∧ st.framing = f

theorem framingClose_iff {version : Bytes} {lines : List Bytes} {f : ReqFraming}
    (accepted : Accepts version lines f) : framingClose f = true ↔ ClosesAfter version lines := by
  obtain ⟨authorizes, fuel, p, st, rest, c, c', ran, rfl⟩ := accepted
  have framed := headerLoop_accumulated ran
  have old : st.framing.http10 = true ↔ version = ascii "HTTP/1.0" := by
    rw [framed.http10]
    simp [framingInit]
  have closes : st.framing.close = true ↔ Says lines "close" := by
    rw [framed.close, ← any_isToken close_lower]
    simp [framingInit]
  have keeps : st.framing.keepAlive = true ↔ Says lines "keep-alive" := by
    rw [framed.keepAlive, ← any_isToken keepAlive_lower]
    simp [framingInit]
  have sized : st.framing.clSeen = true ↔ lineValues clName lines ≠ [] := by
    rw [framed.clSeen, ← any_named]
    simp [framingInit]
  have chunks : st.framing.chunked = true ↔
      ∃ value ∈ lineValues teName lines, (trimOws value).map ciLower = ascii "chunked" := by
    rw [framed.chunked]
    simp only [framingInit, Bool.false_or, any_named]
    constructor
    · intro some_
      obtain ⟨value, inside⟩ := List.exists_mem_of_ne_nil _ some_
      exact ⟨value, inside, framed.coded value inside⟩
    · rintro ⟨value, inside, -⟩
      exact List.ne_nil_of_mem inside
  simp only [framingClose, ClosesAfter, Bool.or_eq_true, Bool.and_eq_true, Bool.not_eq_true',
    ← Bool.not_eq_true, old, closes, keeps, sized, chunks, or_assoc]

theorem framingClose_congr {version : Bytes} {lines lines' : List Bytes} {f f' : ReqFraming}
    (accepted : Accepts version lines f) (accepted' : Accepts version lines' f')
    (lengths : lineValues clName lines' = [] ↔ lineValues clName lines = [])
    (codings : lineValues teName lines' = [] ↔ lineValues teName lines = [])
    (words : ∀ word ∈ ["close", "keep-alive"], Says lines' word ↔ Says lines word) :
    framingClose f' = framingClose f := by
  have chunks : ∀ {lines f}, Accepts version lines f →
      ((∃ value ∈ lineValues teName lines, (trimOws value).map ciLower = ascii "chunked") ↔
        lineValues teName lines ≠ []) := by
    rintro lines f ⟨_, _, _, st, _, _, _, ran, rfl⟩
    constructor
    · rintro ⟨value, inside, -⟩
      exact List.ne_nil_of_mem inside
    · intro some_
      obtain ⟨value, inside⟩ := List.exists_mem_of_ne_nil _ some_
      exact ⟨value, inside, (headerLoop_accumulated ran).coded value inside⟩
  rw [Bool.eq_iff_iff, framingClose_iff accepted, framingClose_iff accepted', ClosesAfter, ClosesAfter,
    chunks accepted, chunks accepted', words "close" (by simp), words "keep-alive" (by simp), ne_eq, ne_eq,
    ne_eq, ne_eq, lengths, codings]

/-- A Connection field with that value. -/
def optionsLine (value : Bytes) : Bytes := connectionName ++ 58 :: value

theorem optionsLine_named (value : Bytes) : httpHdrIs (optionsLine value) connectionName = true := by
  have plain : ∀ b ∈ connectionName, b ≠ 0 := fun b inside => (connectionName_field.2 b inside).2.2.2
  have compared : asciiNcasecmp (connectionName ++ 58 :: value) connectionName connectionName.length = 0 :=
    asciiNcasecmp_of_map plain (by rw [List.take_left])
  simp [httpHdrIs, optionsLine, compared, charAt]

theorem optionsLine_elements (value : Bytes) : connectionElements [optionsLine value] = elements value := by
  have behind : (optionsLine value).drop (connectionName.length + 1) = value := by
    rw [optionsLine, ← List.drop_drop, List.drop_left]
    rfl
  simp [connectionElements, lineValues_one, optionsLine_named, behind]

/-- Cut at a comma or not, the fields say the same. -/
theorem optionsLine_cut (before after : List Bytes) (value value' : Bytes) :
    connectionElements (before ++ optionsLine value :: optionsLine value' :: after) =
      connectionElements (before ++ optionsLine (value ++ 44 :: value') :: after) := by
  have one : ∀ line rest, connectionElements (line :: rest) =
      connectionElements [line] ++ connectionElements rest :=
    fun line rest => connectionElements_append [line] rest
  rw [connectionElements_append, connectionElements_append, one, one (optionsLine value'),
    one (optionsLine (value ++ 44 :: value')), optionsLine_elements, optionsLine_elements,
    optionsLine_elements, elements_comma, List.append_assoc]

theorem optionsLine_other {name : Bytes} (field : FieldName name)
    (differ : name.map ciLower ≠ connectionName.map ciLower) (value : Bytes) :
    lineValues name [optionsLine value] = [] := by
  rw [lineValues_one, not_named connectionName_field field differ.symm (optionsLine_named value)]
  rfl

/-- After the response the server closes exactly when RFC 9112 has it so. The decision is the same for all
accepted lines with the same options and the same kinds of framing fields; so it is in whatever order the
lines come, and whether a Connection field is one or is cut in two at a comma. -/
theorem connection_persistence {version : Bytes} {lines : List Bytes} {f : ReqFraming}
    (accepted : Accepts version lines f) :
    (framingClose f = true ↔ ClosesAfter version lines) ∧
    (∀ lines' f', Accepts version lines' f' →
      (lineValues clName lines' = [] ↔ lineValues clName lines = []) →
      (lineValues teName lines' = [] ↔ lineValues teName lines = []) →
      (∀ word ∈ ["close", "keep-alive"], Says lines' word ↔ Says lines word) →
      framingClose f' = framingClose f) ∧
    (∀ lines' f', Accepts version lines' f' → lines'.Perm lines → framingClose f' = framingClose f) ∧
    (∀ before after value value' f', lines = before ++ optionsLine (value ++ 44 :: value') :: after →
      Accepts version (before ++ optionsLine value :: optionsLine value' :: after) f' →
      framingClose f' = framingClose f) := by
  refine ⟨framingClose_iff accepted, fun _ _ => framingClose_congr accepted, ?_, ?_⟩
  · intro lines' f' accepted' order
    have values : ∀ name, (lineValues name lines').Perm (lineValues name lines) :=
      fun name => (order.filter _).map _
    have empty : ∀ name, lineValues name lines' = [] ↔ lineValues name lines = [] := fun name =>
      ⟨fun none => (none ▸ values name).nil_eq.symm, fun none => (none ▸ values name).eq_nil⟩
    have options := (values connectionName).flatMap_right elements
    refine framingClose_congr accepted accepted' (empty _) (empty _) fun word _ => ?_
    exact exists_congr fun e => and_congr options.mem_iff .rfl
  · rintro before after value value' f' rfl accepted'
    obtain ⟨-, clConnection, teConnection⟩ := names_differ
    have others : ∀ {name}, FieldName name → name.map ciLower ≠ connectionName.map ciLower →
        lineValues name (before ++ optionsLine value :: optionsLine value' :: after) =
          lineValues name (before ++ optionsLine (value ++ 44 :: value') :: after) := by
      intro name field differ
      have one : ∀ value rest, lineValues name (optionsLine value :: rest) = lineValues name rest := by
        intro value rest
        have cut := lineValues_append name [optionsLine value] rest
        rwa [optionsLine_other field differ, List.nil_append] at cut
      rw [lineValues_append, lineValues_append, one, one, one]
    refine framingClose_congr accepted accepted' (by rw [others clName_field clConnection])
      (by rw [others teName_field teConnection]) fun word _ => ?_
    rw [Says, Says, optionsLine_cut]

theorem connection_persistence_old :
    Accepts (ascii "HTTP/1.0") [ascii "connection: x,, Keep-Alive "]
        ⟨true, 0, false, false, false, true⟩ ∧
      ¬ClosesAfter (ascii "HTTP/1.0") [ascii "connection: x,, Keep-Alive "] := by
  have accepted : Accepts (ascii "HTTP/1.0") [ascii "connection: x,, Keep-Alive "]
      ⟨true, 0, false, false, false, true⟩ :=
    ⟨true, 3, ascii "connection: x,, Keep-Alive \r\n\r\n", ⟨⟨true, 0, false, false, false, true⟩, none⟩, [],
      ⟨[], [], []⟩, ⟨[], [], []⟩, rfl, rfl⟩
  refine ⟨accepted, fun closes => ?_⟩
  have asked := (connection_persistence accepted).1.mpr closes
  cases asked

end WolfCert.Server
