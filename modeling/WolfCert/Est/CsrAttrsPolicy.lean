import WolfCert.Est.CsrAttrsCodec

/-!
# The attributes a CSR must have

`csr_attrs_enforce` compares the bare OIDs of the policy with the types of the attributes in the CSR.
-/

namespace WolfCert.Est

open WolfCert.CLib WolfCert.Scep WolfCert.Server

/-! ## Certification requests -/

structure CsrAttribute where
  type : Bytes
  values : Bytes
deriving DecidableEq, Repr

/-- `Attribute ::= SEQUENCE { type OBJECT IDENTIFIER, values SET }`. -/
def IsAttribute (a : CsrAttribute) (encoded : Bytes) : Prop :=
  ∃ type values, IsElement 0x06 a.type type ∧ IsElement 0x31 a.values values ∧
    IsElement 0x30 (type ++ values) encoded

inductive AreAttributes : List CsrAttribute → Bytes → Prop where
  | nil : AreAttributes [] []
  | cons {a : CsrAttribute} {rest : List CsrAttribute} {first tail : Bytes} (head : IsAttribute a first)
      (others : AreAttributes rest tail) : AreAttributes (a :: rest) (first ++ tail)

/-- The attributes of a request; some encoders omit an empty `[0]`. -/
def IsAttributeSet (attributes : List CsrAttribute) (encoded : Bytes) : Prop :=
  (∃ body, AreAttributes attributes body ∧ IsElement 0xA0 body encoded) ∨ (attributes = [] ∧ encoded = [])

/-- `CertificationRequestInfo ::= SEQUENCE { version, subject, subjectPKInfo, attributes [0] }`. -/
def IsRequestInfo (attributes : List CsrAttribute) (encoded : Bytes) : Prop :=
  ∃ number name key version subject subjectPKInfo set, IsElement 0x02 number version ∧
    IsElement 0x30 name subject ∧ IsElement 0x30 key subjectPKInfo ∧ IsAttributeSet attributes set ∧
    IsElement 0x30 (version ++ (subject ++ (subjectPKInfo ++ set))) encoded

/-- `CertificationRequest ::= SEQUENCE { info, signatureAlgorithm, signature BIT STRING }`. -/
def IsRequest (attributes : List CsrAttribute) (csr : Bytes) : Prop :=
  ∃ identifier bits info algorithm signature, IsRequestInfo attributes info ∧
    IsElement 0x30 identifier algorithm ∧ IsElement 0x03 bits signature ∧
    IsElement 0x30 (info ++ (algorithm ++ signature)) csr

/-! ## The walk through a request -/

theorem takeTagged_element {tag : UInt8} {content bytes : Bytes} (element : IsElement tag content bytes)
    (rest : Bytes) : takeTagged tag (bytes ++ rest) = some (content, rest) := by
  obtain ⟨hdr, taken, -, after, inside⟩ := derTakeTl_element element rest
  simp only [takeTagged, csrTakeTl_eq, taken, after, inside]
  simp

theorem takeTagged_whole {tag : UInt8} {content bytes : Bytes} (element : IsElement tag content bytes) :
    takeTagged tag bytes = some (content, []) := by
  have taken := takeTagged_element element []
  rwa [List.append_nil] at taken

/-- The loop visits every attribute up to the first one of the type. -/
theorem hasAttrFrom_attributes {attributes : List CsrAttribute} {body : Bytes}
    (are : AreAttributes attributes body) (oid : Bytes) {fuel : Nat} (enough : body.length < fuel) :
    hasAttrFrom oid fuel body = some (decide (oid ∈ attributes.map (·.type))) := by
  induction are generalizing fuel with
  | nil =>
      obtain ⟨fuel, rfl⟩ : ∃ f, fuel = f + 1 := ⟨fuel - 1, by omega⟩
      rfl
  | cons head others ih =>
      rename_i a rest first tail
      obtain ⟨fuel, rfl⟩ : ∃ f, fuel = f + 1 := ⟨fuel - 1, by omega⟩
      obtain ⟨type, values, typeElement, -, element⟩ := head
      obtain ⟨hdr, taken, size, after, content⟩ := derTakeTl_element element tail
      obtain ⟨hdr', taken', -, -, content'⟩ := derTakeTl_element typeElement values
      have filled : first ≠ [] := by
        obtain ⟨len, -, rfl⟩ := element
        exact List.cons_ne_nil _ _
      have positive := List.length_pos_iff.mpr filled
      rw [List.length_append] at enough
      rw [hasAttrFrom, if_neg (by simp [filled])]
      simp only [csrTakeTl_eq, taken, after, content, taken', content']
      rw [if_neg (by simp), if_neg (by simp), ih (by omega)]
      by_cases same : a.type = oid
      · simp [same]
      · simp [same, Ne.symm same]

theorem csrHasAttrOid_request {attributes : List CsrAttribute} {csr : Bytes} (is : IsRequest attributes csr)
    (oid : Bytes) : csrHasAttrOid csr oid = some (decide (oid ∈ attributes.map (·.type))) := by
  obtain ⟨identifier, bits, info, algorithm, signature, isInfo, -, -, outer⟩ := is
  obtain ⟨number, name, key, version, subject, subjectPKInfo, set, first, second, third, isSet, inner⟩ := isInfo
  simp only [csrHasAttrOid, takeTagged_whole outer, takeTagged_element inner, takeTagged_element first,
    takeTagged_element second, takeTagged_element third]
  rcases isSet with ⟨body, are, element⟩ | ⟨rfl, rfl⟩
  · simp only [takeTagged_whole element]
    exact hasAttrFrom_attributes are oid (Nat.lt_succ_self _)
  · rfl

/-! ## The check -/

def bareOids (items : List CsrAttrItem) : List Bytes :=
  items.filterMap fun
    | .bareOid oid => some oid
    | .attribute _ _ => none

theorem mem_bareOids {items : List CsrAttrItem} {oid : Bytes} :
    oid ∈ bareOids items ↔ .bareOid oid ∈ items := by
  rw [bareOids, List.mem_filterMap]
  constructor
  · rintro ⟨item, inside, bare⟩
    match item, bare with
    | .bareOid _, rfl => exact inside
  · intro inside
    exact ⟨_, inside, rfl⟩

theorem missingOid_request {attributes : List CsrAttribute} {csr : Bytes} (is : IsRequest attributes csr)
    (items : List CsrAttrItem) :
    missingOid csr items = (bareOids items).find? fun oid => oid ∉ attributes.map (·.type) := by
  induction items with
  | nil => rfl
  | cons item items ih =>
      unfold missingOid bareOids at ih ⊢
      match item with
      | .attribute _ _ => exact ih
      | .bareOid oid =>
          rw [List.findSome?_cons, List.filterMap_cons, List.find?_cons, ← ih]
          simp only [csrHasAttrOid_request is]
          by_cases has : oid ∈ attributes.map (·.type)
          · simp [has]
          · simp [has]

/-- What the check answers, from the bare OIDs of the policy and the types in the CSR. -/
def enforced (required types : List Bytes) (cap : Nat) : Except (Rc × Bytes) Unit :=
  match required.find? (· ∉ types) with
  | none => .ok ()
  | some oid => .error (.errProtocol, if oid.length ≤ cap then oid else [])

theorem enforced_ok_iff {required types : List Bytes} {cap : Nat} :
    enforced required types cap = .ok () ↔ ∀ oid ∈ required, oid ∈ types := by
  unfold enforced
  cases found : required.find? (· ∉ types) with
  | none =>
      have present := List.find?_eq_none.mp found
      simpa using present
  | some oid =>
      have absent := List.find?_some found
      have inside := List.mem_of_find?_eq_some found
      simp only [reduceCtorEq, false_iff, not_forall]
      exact ⟨oid, inside, of_decide_eq_true absent⟩

theorem enforced_cases (required types : List Bytes) (cap : Nat) :
    enforced required types cap = .ok () ∨ ∃ before oid after, required = before ++ oid :: after ∧
      (∀ earlier ∈ before, earlier ∈ types) ∧ oid ∉ types ∧
      enforced required types cap = .error (.errProtocol, if oid.length ≤ cap then oid else []) := by
  unfold enforced
  cases found : required.find? (· ∉ types) with
  | none => exact .inl rfl
  | some oid =>
      obtain ⟨absent, before, after, shape, present⟩ := List.find?_eq_some_iff_append.mp found
      exact .inr ⟨before, oid, after, shape, fun earlier inside => by simpa using present earlier inside,
        of_decide_eq_true absent, rfl⟩

theorem csrAttrsEnforce_enforced {σ : Type} {env : WolfCrypt σ} (granted : ∀ w n, (env.alloc w n).1 = true)
    {items : List CsrAttrItem} {policy : Bytes} (encoded : IsCsrAttrs items policy)
    {attributes : List CsrAttribute} {csr : Bytes} (is : IsRequest attributes csr) (cap : Nat) (w : σ) :
    ∃ w', csrAttrsEnforce env policy csr cap w =
      some (enforced (bareOids items) (attributes.map (·.type)) cap, w') := by
  obtain ⟨attrs, w', parsed, rfl⟩ := estParseCsrAttrs_encoded granted encoded w
  obtain ⟨body, -, tlv⟩ := encoded
  refine ⟨w', ?_⟩
  rw [csrAttrsEnforce, if_neg tlv.filled, parsed]
  dsimp only
  rw [missingOid_request is, enforced]
  cases (bareOids attrs.items).find? fun oid => oid ∉ attributes.map (·.type) <;> rfl

theorem enforced_perm {types types' : List Bytes} (perm : types.Perm types') (required : List Bytes)
    (cap : Nat) : enforced required types cap = enforced required types' cap := by
  unfold enforced
  simp only [perm.mem_iff]

/-- The check passes iff every bare OID of the policy is a type in the CSR, else it names the first that
is not. The other items of the policy and the order of the attributes make no difference. -/
theorem csr_attrs_enforce_exact {σ : Type} {env : WolfCrypt σ} (granted : ∀ w n, (env.alloc w n).1 = true)
    {items : List CsrAttrItem} {policy : Bytes} (encoded : IsCsrAttrs items policy)
    {attributes : List CsrAttribute} {csr : Bytes} (is : IsRequest attributes csr) (cap : Nat) (w : σ) :
    ∃ result w', csrAttrsEnforce env policy csr cap w = some (result, w') ∧
      (result = .ok () ↔ ∀ oid, .bareOid oid ∈ items → ∃ a ∈ attributes, a.type = oid) ∧
      (result = .ok () ∨ ∃ before oid after, bareOids items = before ++ oid :: after ∧
        (∀ earlier ∈ before, ∃ a ∈ attributes, a.type = earlier) ∧ (∀ a ∈ attributes, a.type ≠ oid) ∧
        result = .error (.errProtocol, if oid.length ≤ cap then oid else [])) ∧
      ∀ {items' : List CsrAttrItem} {policy' : Bytes} {attributes' : List CsrAttribute} {csr' : Bytes},
        IsCsrAttrs items' policy' → IsRequest attributes' csr' → bareOids items' = bareOids items →
        attributes'.Perm attributes → ∀ v, ∃ v', csrAttrsEnforce env policy' csr' cap v = some (result, v') := by
  obtain ⟨w', ran⟩ := csrAttrsEnforce_enforced granted encoded is cap w
  refine ⟨_, w', ran, ?_, ?_, ?_⟩
  · rw [enforced_ok_iff]
    simp only [mem_bareOids, List.mem_map]
  · have cases := enforced_cases (bareOids items) (attributes.map (·.type)) cap
    simpa only [List.mem_map, not_exists, not_and] using cases
  · intro items' policy' attributes' csr' encoded' is' required perm v
    obtain ⟨v', ran'⟩ := csrAttrsEnforce_enforced granted encoded' is' cap v
    refine ⟨v', ?_⟩
    rw [ran', required, enforced_perm (perm.map _)]

/-! A policy of two OIDs and an attribute, and a request with one of the OIDs. -/

def examplePolicy : Bytes := [0x30, 14, 0x06, 1, 1, 0x30, 6, 0x06, 1, 2, 0x31, 1, 5, 0x06, 1, 3]

def exampleRequest : Bytes :=
  [0x30, 23, 0x30, 17, 0x02, 1, 0, 0x30, 0, 0x30, 0, 0xA0, 8, 0x30, 6, 0x06, 1, 1, 0x31, 1, 9, 0x30, 0, 0x03, 0]

theorem examplePolicy_encoded :
    IsCsrAttrs [.bareOid [1], exampleItem, .bareOid [3]] examplePolicy := by
  have first : IsItem (.bareOid [1]) [0x06, 1, 1] := ⟨by decide, 3, rfl⟩
  have last : IsItem (.bareOid [3]) [0x06, 1, 3] := ⟨by decide, 3, rfl⟩
  have valued : IsItem exampleItem [0x30, 6, 0x06, 1, 2, 0x31, 1, 5] :=
    ⟨by decide, [0x06, 1, 2], [0x31, 1, 5], ⟨3, rfl⟩, ⟨3, rfl⟩, 8, rfl⟩
  exact ⟨_, .cons first (.cons valued (.cons last .nil)), 16, rfl⟩

theorem exampleRequest_is : IsRequest [⟨[1], [9]⟩] exampleRequest := by
  have tlv : ∀ {tag : UInt8} {content encoded : Bytes} (cap : Nat), encTlv tag content cap = some encoded →
      IsElement tag content encoded := fun _ put => encTlv_element put
  have one : IsAttribute ⟨[1], [9]⟩ [0x30, 6, 0x06, 1, 1, 0x31, 1, 9] :=
    ⟨[0x06, 1, 1], [0x31, 1, 9], tlv 3 rfl, tlv 3 rfl, tlv 8 rfl⟩
  have info : IsRequestInfo [⟨[1], [9]⟩]
      [0x30, 17, 0x02, 1, 0, 0x30, 0, 0x30, 0, 0xA0, 8, 0x30, 6, 0x06, 1, 1, 0x31, 1, 9] :=
    ⟨[0], [], [], [0x02, 1, 0], [0x30, 0], [0x30, 0], _, tlv 3 rfl, tlv 2 rfl, tlv 2 rfl,
      .inl ⟨_, .cons one .nil, tlv 10 rfl⟩, tlv 19 rfl⟩
  exact ⟨[], [], _, [0x30, 0], [0x03, 0], info, tlv 2 rfl, tlv 2 rfl, tlv 25 rfl⟩

theorem csr_attrs_enforce_names_missing :
    ∃ result w', csrAttrsEnforce exampleCodec examplePolicy exampleRequest 64 ⟨[], [], false, false⟩ =
      some (result, w') ∧ result ≠ .ok () := by
  have granted : ∀ w n, (exampleCodec.alloc w n).1 = true := fun _ _ => rfl
  obtain ⟨result, w', ran, ok, -, -⟩ :=
    csr_attrs_enforce_exact granted examplePolicy_encoded exampleRequest_is 64 ⟨[], [], false, false⟩
  refine ⟨result, w', ran, fun passed => ?_⟩
  have has := ok.mp passed [3] (by simp)
  simp at has

/-- A request with every attribute is refused if the policy cannot be copied. -/
theorem csr_attrs_enforce_memory :
    IsCsrAttrs [] [0x30, 0] ∧ IsRequest [⟨[1], [9]⟩] exampleRequest ∧
      csrAttrsEnforce { exampleCodec with alloc := fun w _ => (false, w) } [0x30, 0] exampleRequest 64
        ⟨[], [], false, false⟩ = some (.error (.errMemory, []), ⟨[], [], false, false⟩) :=
  ⟨⟨[], .nil, 2, rfl⟩, exampleRequest_is, rfl⟩

end WolfCert.Est
