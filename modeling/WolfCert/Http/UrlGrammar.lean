import WolfCert.Http.Framing
import WolfCert.Http.UrlParts

/-!
# The grammar of URLs

`[http:// or https://]host[:port][/path][?query][#fragment]` as a relation between a text and its
components, and where `wolfcert_http_url_parse` departs from it: it takes an empty host, leaves the
port to `strtol`, does not look at what follows a port or a bracket, and takes the first `://` anywhere
for the end of a scheme.
-/

namespace WolfCert.Http

open WolfCert.CLib

variable {σ : Type} {env : Env σ}

/-! ## Components -/

/-- Nothing follows, or a path, a query or a fragment does. -/
def EndsHost (rest : Bytes) : Prop :=
  rest = [] ∨ charAt rest = 47 ∨ charAt rest = 63 ∨ charAt rest = 35

/-- The characters of a name. -/
def inHost (c : UInt8) : Bool := c != 58 && c != 47 && c != 63 && c != 35

/-- A host as it is written, and the host. -/
inductive HostText : Bytes → Bytes → Prop where
  | name (name : Bytes) (filled : name ≠ []) (plain : ∀ c ∈ name, inHost c = true)
      (bare : charAt name ≠ 91) : HostText name name
  | literal (host : Bytes) (closed : 93 ∉ host) : HostText (91 :: (host ++ [93])) host

/-- A port as it is written, and the port. -/
inductive PortText (default : Int) : Bytes → Int → Prop where
  | absent : PortText default [] default
  | given (digits : Bytes) (n : Nat) (number : PlainDecimal digits n) (positive : 1 ≤ n)
      (range : n ≤ 65535) : PortText default (58 :: digits) n

/-- The request target that what follows the authority stands for. -/
def PathOf (rest path : Bytes) : Prop :=
  ∃ target fragment, rest = target ++ fragment ∧ 35 ∉ target ∧ (fragment = [] ∨ charAt fragment = 35) ∧
    path = if charAt target = 47 then target else 47 :: target

/-- What stands behind the scheme, with the default port. -/
structure AuthorityForm (text : Bytes) (default : Int) (u : Url) : Prop where
  parts : ∃ host port rest, text = host ++ (port ++ rest) ∧ HostText host u.host ∧
    PortText default port u.port ∧ EndsHost rest ∧ PathOf rest u.path
  hostLimit : u.host.length ≤ maxHostLen
  pathLimit : u.path.length ≤ maxPathLen

def SchemedForm (url : Bytes) (u : Url) : Prop :=
  ∃ text default, url = u.scheme ++ (ascii "://" ++ text) ∧ schemeDefaults u.scheme = some (default, u.tls) ∧
    AuthorityForm text default u

def SchemelessForm (url : Bytes) (u : Url) : Prop :=
  u.scheme = ascii "https" ∧ u.tls = true ∧ AuthorityForm url 443 u

/-- The URL is of the form, with these components. -/
def UrlForm (url : Bytes) (u : Url) : Prop := SchemedForm url u ∨ SchemelessForm url u

/-- What an accepted URL has behind its scheme is a host and a port and nothing else. -/
structure StrictParts (hostStart host hostEnd target : Bytes) : Prop where
  host : charAt hostStart ≠ 91 → host ≠ []
  port : charAt hostEnd = 58 → isDigit (charAt hostEnd.tail) = true
  ends : EndsHost target

theorem pathOf_iff {rest path : Bytes} : PathOf rest path ↔ path = targetPath rest := by
  have slash : charAt rest = 47 ↔ charAt (rest.takeWhile (· != 35)) = 47 := by
    cases rest with
    | nil => rfl
    | cons c rest =>
        by_cases hash : c = 35
        · subst hash
          simp [charAt]
        · have other : (c != 35) = true := by simpa using hash
          simp [charAt, other]
  constructor
  · rintro ⟨target, fragment, rfl, absent, ends, rfl⟩
    have cut : (target ++ fragment).takeWhile (· != 35) = target := by
      rw [List.takeWhile_append_of_pos (bne_of_not_mem absent)]
      rcases ends with rfl | hash
      · simp
      · cases fragment with
        | nil => cases hash
        | cons c fragment =>
            have here : c = 35 := hash
            simp [here]
    rw [cut] at slash
    simp only [targetPath, cut, slash]
  · rintro rfl
    refine ⟨rest.takeWhile (· != 35), rest.dropWhile (· != 35), (List.takeWhile_append_dropWhile).symm, ?_, ?_, ?_⟩
    · intro inside
      exact absurd (List.mem_takeWhile_imp inside) (by decide)
    · cases shape : rest.dropWhile (· != 35) with
      | nil => exact .inl rfl
      | cons c fragment =>
          have more : rest.dropWhile (· != 35) ≠ [] := by
            rw [shape]
            exact List.cons_ne_nil _ _
          have stops := List.head_dropWhile_not (· != 35) more
          simp only [shape, List.head_cons] at stops
          exact .inr (by simpa [charAt] using stops)
    · simp only [targetPath, slash]

/-! ## Hosts and ports -/

theorem EndsHost.stops {rest : Bytes} (ends : EndsHost rest) {c : UInt8} (first : c ∈ rest.head?) :
    inHost c = false ∧ isDigit c = false ∧ c ≠ 58 := by
  cases rest with
  | nil => cases first
  | cons d rest =>
      cases first
      simp only [EndsHost, charAt, List.headD_cons, List.cons_ne_nil, false_or] at ends
      rcases ends with rfl | rfl | rfl
      · decide
      · decide
      · decide

theorem EndsHost.not_colon {rest : Bytes} (ends : EndsHost rest) : charAt rest ≠ 58 := by
  cases rest with
  | nil => decide
  | cons c rest => exact (ends.stops rfl).2.2

theorem charAt_mem {text : Bytes} {c : UInt8} (here : charAt text = c) (shown : c ≠ 0) : c ∈ text := by
  cases text with
  | nil => exact absurd here.symm shown
  | cons b text => exact here ▸ List.mem_cons_self

theorem splitHost_text {text host next : Bytes} (written : HostText text host)
    (stops : ∀ c ∈ next.head?, inHost c = false) : splitHost (text ++ next) = some (host, next) := by
  cases written with
  | name _ filled plain bare =>
      have first : charAt (text ++ next) = charAt text := by
        cases text with
        | nil => exact absurd rfl filled
        | cons c text => rfl
      have ends : next.takeWhile inHost = [] ∧ next.dropWhile inHost = next := by
        cases next with
        | nil => exact ⟨rfl, rfl⟩
        | cons c next => simp [stops c rfl]
      have taken : (text ++ next).takeWhile inHost = text := by
        rw [List.takeWhile_append_of_pos plain, ends.1, List.append_nil]
      have dropped : (text ++ next).dropWhile inHost = next := by
        rw [List.dropWhile_append_of_pos plain, ends.2]
      have cut : splitHost (text ++ next) =
          some ((text ++ next).takeWhile inHost, (text ++ next).dropWhile inHost) := by
        rw [splitHost, first, if_neg bare]
        rfl
      rw [cut, taken, dropped]
  | literal _ closed =>
      have found : strstr [93] (host ++ ([93] ++ next)) = some (host, next) := by
        rw [strstr_skip closed, strstr_self]
        simp
      have text : 91 :: (host ++ [93]) ++ next = 91 :: (host ++ ([93] ++ next)) := by simp
      have bracket : charAt (91 :: (host ++ ([93] ++ next))) = 91 := rfl
      rw [text, splitHost, if_pos bracket, List.tail_cons, found]

/-- What the code takes for a host. -/
theorem splitHost_cases {text host next : Bytes} (cut : splitHost text = some (host, next)) :
    (text = 91 :: (host ++ [93]) ++ next ∧ 93 ∉ host) ∨
      (charAt text ≠ 91 ∧ text = host ++ next ∧ ∀ c ∈ host, inHost c = true) := by
  unfold splitHost at cut
  split at cut
  · rename_i bracket
    split at cut
    · cases cut
    · rename_i found
      cases cut
      left
      obtain ⟨rest, rfl⟩ : ∃ rest, text = 91 :: rest := by
        cases text with
        | nil => cases bracket
        | cons c text => exact ⟨text, by rw [← bracket]; rfl⟩
      refine ⟨?_, strstr_byte found⟩
      have shape := strstr_eq_append found
      rw [List.tail_cons] at shape
      rw [shape]
      simp
  · rename_i bracket
    cases cut
    exact .inr ⟨bracket, (List.takeWhile_append_dropWhile).symm, fun c inside => List.mem_takeWhile_imp inside⟩

theorem splitPort_text {default port : Int} {text rest : Bytes} (written : PortText default text port)
    (ends : EndsHost rest) : splitPort default (text ++ rest) = some (port, rest) := by
  cases written with
  | absent => rw [List.nil_append, splitPort, if_neg ends.not_colon]
  | given digits n number positive range =>
      obtain ⟨filled, all, rfl⟩ := number
      have read := strtol_digits filled all fun c first => (ends.stops first).2.1
      have largest : longMax = 9223372036854775807 := rfl
      have exact_ : min (digitsValue digits : Int) longMax = digitsValue digits := by omega
      rw [exact_] at read
      have colon : charAt (58 :: (digits ++ rest)) = 58 := rfl
      rw [List.cons_append, splitPort, if_pos colon, List.tail_cons, read]
      dsimp only
      rw [if_neg (by omega)]

theorem PortText.stops {default port : Int} {text rest : Bytes} (written : PortText default text port)
    (ends : EndsHost rest) : ∀ c ∈ (text ++ rest).head?, inHost c = false := by
  cases written with
  | absent => exact fun c first => (ends.stops first).1
  | given digits n number positive range =>
      intro c first
      cases first
      decide

theorem PortText.digit {default port : Int} {text rest : Bytes} (written : PortText default text port)
    (ends : EndsHost rest) (colon : charAt (text ++ rest) = 58) :
    isDigit (charAt (text ++ rest).tail) = true := by
  cases written with
  | absent => exact absurd colon ends.not_colon
  | given digits n number positive range =>
      obtain ⟨filled, all, -⟩ := number
      cases digits with
      | nil => exact absurd rfl filled
      | cons d digits => exact all d List.mem_cons_self

/-- What the code takes for a port, if a digit begins it. -/
theorem portText_of_split {default port : Int} {hostEnd target : Bytes}
    (cut : splitPort default hostEnd = some (port, target))
    (digit : charAt hostEnd = 58 → isDigit (charAt hostEnd.tail) = true) :
    ∃ text, hostEnd = text ++ target ∧ PortText default text port := by
  unfold splitPort at cut
  split at cut
  · rename_i colon
    obtain ⟨number, rfl⟩ : ∃ number, hostEnd = 58 :: number := by
      cases hostEnd with
      | nil => cases colon
      | cons c hostEnd => exact ⟨hostEnd, by rw [← colon]; rfl⟩
    have first : isDigit (charAt number) = true := digit rfl
    have filled : number.takeWhile isDigit ≠ [] := by
      cases number with
      | nil => exact absurd first (by decide)
      | cons c number =>
          have here : isDigit c = true := first
          simp [here]
    have ends : ∀ c ∈ (number.dropWhile isDigit).head?, isDigit c = false := by
      intro c first
      have stops := List.head?_dropWhile_not isDigit number
      rw [Option.mem_def.mp first] at stops
      exact stops
    have read := strtol_digits filled (fun c inside => List.mem_takeWhile_imp inside) ends
    rw [List.takeWhile_append_dropWhile] at read
    rw [List.tail_cons, read] at cut
    dsimp only at cut
    split at cut
    · cases cut
    · rename_i range
      simp only [Option.some.injEq, Prod.mk.injEq] at cut
      obtain ⟨value, rfl⟩ := cut
      have largest : longMax = 9223372036854775807 := rfl
      have exact_ : port = digitsValue (number.takeWhile isDigit) := by omega
      refine ⟨58 :: number.takeWhile isDigit, ?_, ?_⟩
      · rw [List.cons_append, List.takeWhile_append_dropWhile]
      · rw [exact_]
        exact .given _ _ ⟨filled, fun c inside => List.mem_takeWhile_imp inside, rfl⟩ (by omega) (by omega)
  · cases cut
    exact ⟨[], rfl, .absent⟩

/-! ## Authorities -/

/-- The parts the code cuts a text of the form into are strict. -/
theorem AuthorityForm.parts_strict {text : Bytes} {default : Int} {u : Url}
    (form : AuthorityForm text default u) :
    ∃ hostEnd target, splitHost text = some (u.host, hostEnd) ∧
      splitPort default hostEnd = some (u.port, target) ∧ u.path = targetPath target ∧
      StrictParts text u.host hostEnd target := by
  obtain ⟨host, port, rest, rfl, written, number, ends, path⟩ := form.parts
  refine ⟨port ++ rest, rest, splitHost_text written (number.stops ends), splitPort_text number ends,
    pathOf_iff.mp path, ⟨fun bare => ?_, number.digit ends, ends⟩⟩
  generalize u.host = host' at written
  cases written with
  | name _ filled => exact filled
  | literal => exact absurd rfl bare

theorem authorityForm_of_parts {text hostEnd target : Bytes} {default : Int} {u : Url}
    (host : splitHost text = some (u.host, hostEnd)) (hostLimit : u.host.length ≤ maxHostLen)
    (port : splitPort default hostEnd = some (u.port, target)) (path : u.path = targetPath target)
    (pathLimit : u.path.length ≤ maxPathLen) (strict : StrictParts text u.host hostEnd target) :
    AuthorityForm text default u := by
  obtain ⟨number, rfl, written⟩ := portText_of_split port strict.port
  refine ⟨?_, hostLimit, pathLimit⟩
  rcases splitHost_cases host with ⟨shape, closed⟩ | ⟨bare, shape, plain⟩
  · exact ⟨_, number, target, shape, .literal u.host closed, written, strict.ends, pathOf_iff.mpr path⟩
  · have filled := strict.host bare
    have first : charAt u.host ≠ 91 := by
      rw [shape] at bare
      cases name : u.host with
      | nil => exact absurd name filled
      | cons c name =>
          rw [name] at bare
          exact bare
    exact ⟨u.host, number, target, shape, .name u.host filled plain first, written, strict.ends,
      pathOf_iff.mpr path⟩

/-! ## Schemes -/

theorem ciCmp_length {a b : Bytes} (same : ciCmp a b = 0) (text : 0 ∉ a) (text' : 0 ∉ b) :
    a.length = b.length := by
  have ended {c : UInt8} {rest : Bytes} (absent : 0 ∉ c :: rest) : ciLower c ≠ 0 := fun zero =>
    absent (ciLower_eq_zero zero ▸ List.mem_cons_self)
  have apart {x : UInt8} (shown : x ≠ 0) : x.toNat ≠ 0 := fun zero => shown (UInt8.toNat_inj.mp zero)
  have last : ciLower (charAt []) = 0 := by decide
  induction a generalizing b with
  | nil =>
      cases b with
      | nil => rfl
      | cons d b =>
          have shown := apart (ended text')
          have zero : ((ciLower (charAt [])).toNat : Int) - (ciLower d).toNat = 0 := same
          rw [last, UInt8.toNat_zero] at zero
          omega
  | cons c a ih =>
      cases b with
      | nil =>
          have shown := apart (ended text)
          have zero : ((ciLower c).toNat : Int) - (ciLower (charAt [])).toNat = 0 := same
          rw [last, UInt8.toNat_zero] at zero
          omega
      | cons d b =>
          simp only [ciCmp] at same
          split at same
          · have later := ih same (fun inside => text (List.mem_cons_of_mem _ inside))
              (fun inside => text' (List.mem_cons_of_mem _ inside))
            rw [List.length_cons, List.length_cons, later]
          · rename_i differ
            exact absurd (UInt8.toNat_inj.mp (by omega)) differ

/-- A known scheme is a name, and short. -/
theorem schemeDefaults_name {scheme : Bytes} {port : Int} {tls : Bool} (text : 0 ∉ scheme)
    (known : schemeDefaults scheme = some (port, tls)) :
    HostText scheme scheme ∧ 58 ∉ scheme ∧ scheme.length ≤ 16 := by
  obtain ⟨word, listed, same⟩ : ∃ word ∈ [ascii "https", ascii "http"], ciCmp scheme word = 0 := by
    unfold schemeDefaults at known
    split at known
    · exact ⟨ascii "https", List.mem_cons_self, ‹_›⟩
    · split at known
      · exact ⟨ascii "http", List.mem_cons_of_mem _ List.mem_cons_self, ‹_›⟩
      · cases known
  have words : ∀ word ∈ [ascii "https", ascii "http"], 0 ∉ word ∧ 0 < word.length ∧ word.length ≤ 16 ∧
      ∀ d ∈ word, ∀ c ∈ [35, 47, 58, 63, 91], ciLower c ≠ ciLower d := by
    decide +kernel
  obtain ⟨text', some_, short, letters⟩ := words word listed
  have length := ciCmp_length same text text'
  have plain : ∀ c ∈ [35, 47, 58, 63, 91], c ∉ scheme := by
    intro c delimiter inside
    obtain ⟨d, member, lower⟩ := ciCmp_mem same text inside
    exact letters d member c delimiter lower
  refine ⟨.name scheme ?_ (fun c inside => ?_) fun bracket => ?_, plain 58 (by simp), by omega⟩
  · rintro rfl
    rw [← length] at some_
    cases some_
  · simp only [inHost, Bool.and_eq_true, bne_iff_ne]
    refine ⟨⟨⟨?_, ?_⟩, ?_⟩, ?_⟩
    all_goals
      rintro rfl
      exact plain _ (by simp) inside
  · exact plain 91 (by simp) (charAt_mem bracket (by decide))

theorem strstr_scheme {scheme : Bytes} (plain : 58 ∉ scheme) (text : Bytes) :
    strstr (ascii "://") (scheme ++ (ascii "://" ++ text)) = some (scheme, text) := by
  have separator : ascii "://" = [58, 47, 47] := by decide +kernel
  rw [separator, strstr_skip plain, strstr_self, Option.map_some, List.append_nil]

/-- A known scheme and `://` are no host and port. -/
theorem not_schemeless {scheme text : Bytes} {port : Int} {tls : Bool} {u : Url} (shown : 0 ∉ scheme)
    (known : schemeDefaults scheme = some (port, tls)) :
    ¬AuthorityForm (scheme ++ (ascii "://" ++ text)) 443 u := by
  intro form
  obtain ⟨hostEnd, target, host, number, -⟩ := form.parts_strict
  obtain ⟨name, -⟩ := schemeDefaults_name shown known
  have stops : ∀ c ∈ (ascii "://" ++ text).head?, inHost c = false := by
    intro c first
    cases first
    decide
  rw [splitHost_text name stops] at host
  simp only [Option.some.injEq, Prod.mk.injEq] at host
  obtain ⟨-, rfl⟩ := host
  have refused : splitPort 443 (ascii "://" ++ text) = none := by
    have colon : charAt (ascii "://" ++ text) = 58 := rfl
    have read : strtol (ascii "://" ++ text).tail = (0, (ascii "://" ++ text).tail) := rfl
    rw [splitPort, if_pos colon, read]
    rfl
  rw [refused] at number
  cases number

/-! ## The law -/

section Law

variable {w : σ} {url : Bytes} {u : Url}

theorem SchemedForm.parts (form : SchemedForm url u) (shown : 0 ∉ url) :
    ∃ hostStart hostEnd target port, UrlParts url u hostStart hostEnd target port ∧
      StrictParts hostStart u.host hostEnd target := by
  obtain ⟨text, default, rfl, known, authority⟩ := form
  have scheme : 0 ∉ u.scheme := fun inside => shown (List.mem_append_left _ inside)
  obtain ⟨-, plain, short⟩ := schemeDefaults_name scheme known
  obtain ⟨hostEnd, target, host, port, path, strict⟩ := authority.parts_strict
  exact ⟨text, hostEnd, target, default, ⟨.inr ⟨strstr_scheme plain text, short, known⟩, host,
    authority.hostLimit, port, path, authority.pathLimit⟩, strict⟩

theorem SchemelessForm.parts (form : SchemelessForm url u) (single : strstr (ascii "://") url = none) :
    ∃ hostStart hostEnd target port, UrlParts url u hostStart hostEnd target port ∧
      StrictParts hostStart u.host hostEnd target := by
  obtain ⟨scheme, tls, authority⟩ := form
  obtain ⟨hostEnd, target, host, port, path, strict⟩ := authority.parts_strict
  exact ⟨url, hostEnd, target, 443, ⟨.inl ⟨single, rfl, scheme, rfl, tls⟩, host, authority.hostLimit, port,
    path, authority.pathLimit⟩, strict⟩

theorem UrlParts.form {hostStart hostEnd target : Bytes} {port : Int}
    (parts : UrlParts url u hostStart hostEnd target port)
    (strict : StrictParts hostStart u.host hostEnd target) : UrlForm url u := by
  have authority := authorityForm_of_parts parts.host parts.hostLimit parts.port parts.path parts.pathLimit
    strict
  rcases parts.scheme with ⟨-, rfl, scheme, rfl, tls⟩ | ⟨cut, -, known⟩
  · exact .inr ⟨scheme, tls, authority⟩
  · refine .inl ⟨hostStart, port, ?_, known, authority⟩
    rw [strstr_eq_append cut, List.append_assoc]

/-- The cuts of a URL are determined by it. -/
theorem UrlParts.cuts {u' : Url} {hostStart hostEnd target hostStart' hostEnd' target' : Bytes}
    {port port' : Int} (parts : UrlParts url u hostStart hostEnd target port)
    (parts' : UrlParts url u' hostStart' hostEnd' target' port') :
    hostStart = hostStart' ∧ hostEnd = hostEnd' ∧ target = target' := by
  have start : hostStart = hostStart' ∧ port = port' := by
    rcases parts.scheme with ⟨absent, rfl, -, rfl, -⟩ | ⟨cut, -, known⟩
    · rcases parts'.scheme with ⟨-, rfl, -, rfl, -⟩ | ⟨cut', -⟩
      · exact ⟨rfl, rfl⟩
      · rw [absent] at cut'
        cases cut'
    · rcases parts'.scheme with ⟨absent', -⟩ | ⟨cut', -, known'⟩
      · rw [absent'] at cut
        cases cut
      · rw [cut, Option.some.injEq, Prod.mk.injEq] at cut'
        rw [cut'.1, known', Option.some.injEq, Prod.mk.injEq] at known
        exact ⟨cut'.2, known.1.symm⟩
  obtain ⟨rfl, rfl⟩ := start
  have host := parts.host
  rw [parts'.host, Option.some.injEq, Prod.mk.injEq] at host
  obtain ⟨-, rfl⟩ := host
  have number := parts.port
  rw [parts'.port, Option.some.injEq, Prod.mk.injEq] at number
  exact ⟨rfl, rfl, number.2.symm⟩

/-- An accepted URL without a scheme has no `://` in it. -/
theorem SchemelessForm.single {u' : Url} {hostStart hostEnd target : Bytes} {port : Int}
    (form : SchemelessForm url u) (shown : 0 ∉ url)
    (parts : UrlParts url u' hostStart hostEnd target port) : strstr (ascii "://") url = none := by
  rcases parts.scheme with ⟨absent, -⟩ | ⟨cut, -, known⟩
  · exact absent
  · have shape := strstr_eq_append cut
    rw [List.append_assoc] at shape
    subst shape
    exact absurd form.2.2 (not_schemeless (fun inside => shown (List.mem_append_left _ inside)) known)

end Law

/-! ## Where the parser departs from the form -/

instance (url : Bytes) (u : Url) (hostStart hostEnd target : Bytes) (port : Int) :
    Decidable (UrlParts url u hostStart hostEnd target port) :=
  decidable_of_iff
    ((strstr (ascii "://") url = none ∧ hostStart = url ∧ u.scheme = ascii "https" ∧ port = 443 ∧
        u.tls = true ∨
      strstr (ascii "://") url = some (u.scheme, hostStart) ∧ u.scheme.length ≤ 16 ∧
        schemeDefaults u.scheme = some (port, u.tls)) ∧
      splitHost hostStart = some (u.host, hostEnd) ∧ u.host.length ≤ maxHostLen ∧
      splitPort port hostEnd = some (u.port, target) ∧ u.path = targetPath target ∧
      u.path.length ≤ maxPathLen)
    ⟨fun ⟨scheme, host, hostLimit, port, path, pathLimit⟩ => ⟨scheme, host, hostLimit, port, path, pathLimit⟩,
      fun ⟨scheme, host, hostLimit, port, path, pathLimit⟩ =>
        ⟨scheme, host, hostLimit, port, path, pathLimit⟩⟩

instance (rest : Bytes) : Decidable (EndsHost rest) := inferInstanceAs (Decidable (_ ∨ _))

instance (hostStart host hostEnd target : Bytes) : Decidable (StrictParts hostStart host hostEnd target) :=
  decidable_of_iff ((charAt hostStart ≠ 91 → host ≠ []) ∧
      (charAt hostEnd = 58 → isDigit (charAt hostEnd.tail) = true) ∧ EndsHost target)
    ⟨fun ⟨host, port, ends⟩ => ⟨host, port, ends⟩, fun ⟨host, port, ends⟩ => ⟨host, port, ends⟩⟩

/-- A world in which memory is all there is. -/
def memoryEnv : Env Unit where
  alloc w _ := (true, w)
  connect w _ _ _ := (.errIo, w)
  setupTls w _ := (.errTls, w)
  read w _ _ := (.code .errIo, w)
  write w _ _ := (.code .errIo, w)
  sslConnect w _ := (.error .other, w)
  sslRead w _ _ := (.error .other, w)
  sslWrite w _ _ := (.error .other, w)
  wcTime _ := 0
  base64EncodeNoNl _ := none

end WolfCert.Http
