import WolfCert.Est.CsrAttrs
import WolfCert.Scep.Element

/-!
# The encoding of CSR attributes

`wolfcert_csr_attrs_build`, and how it and `wolfcert_est_parse_csr_attrs` undo each other.
-/

namespace WolfCert.Est

open WolfCert.CLib WolfCert.Scep WolfCert.Server

/-! ## Building -/

section Build

-- `SetLength`: the octets of a length; with a NULL buffer it returns how many they are.
variable (setLength : Nat → Bytes)

/-- The size of an element; the length is cast to a `word32` before it is encoded. -/
def tlvSize (n : Nat) : Nat := 1 + (setLength (n % 2 ^ 32)).length + n

def writeTlv (tag : UInt8) (content : Bytes) : Bytes := tag :: setLength (content.length % 2 ^ 32) ++ content

def itemSize : CsrAttrItem → Nat
  | .bareOid oid => tlvSize setLength oid.length
  | .attribute oid values =>
      tlvSize setLength (tlvSize setLength oid.length + tlvSize setLength values.length)

def writeItem : CsrAttrItem → Bytes
  | .bareOid oid => writeTlv setLength 0x06 oid
  | .attribute oid values =>
      let body := tlvSize setLength oid.length + tlvSize setLength values.length
      0x30 :: setLength (body % 2 ^ 32) ++ (writeTlv setLength 0x06 oid ++ writeTlv setLength 0x31 values)

/-- An OID has content, and an attribute a value. -/
def CsrAttrItem.Buildable : CsrAttrItem → Prop
  | .bareOid oid => oid ≠ []
  | .attribute oid values => oid ≠ [] ∧ values ≠ []

instance (item : CsrAttrItem) : Decidable item.Buildable := by
  cases item <;> unfold CsrAttrItem.Buildable <;> infer_instance

/-- The bytes that were written, and the length the buffer is said to have. -/
structure BuiltAttrs where
  written : Bytes
  len : Nat
deriving DecidableEq, Repr

def itemsSize (items : List CsrAttrItem) : Nat := (items.map (itemSize setLength)).sum

def csrAttrsBuild {σ : Type} (env : WolfCrypt σ) (items : List CsrAttrItem) : Prog σ Rc BuiltAttrs := do
  Prog.require (∀ item ∈ items, item.Buildable) .errBadArg
  let body := itemsSize setLength items
  let total := tlvSize setLength body
  env.allocate total
  pure ⟨0x30 :: setLength (body % 2 ^ 32) ++ items.flatMap (writeItem setLength), total⟩

end Build

/-! ## Encoded items -/

/-- The DER of an item. -/
def IsItem : CsrAttrItem → Bytes → Prop
  | .bareOid oid, encoded => oid ≠ [] ∧ IsTlv 0x06 oid encoded
  | .attribute oid values, encoded => (oid ≠ [] ∧ values ≠ []) ∧ ∃ type set, IsTlv 0x06 oid type ∧
      IsTlv 0x31 values set ∧ IsTlv 0x30 (type ++ set) encoded

inductive AreItems : List CsrAttrItem → Bytes → Prop where
  | nil : AreItems [] []
  | cons {item : CsrAttrItem} {items : List CsrAttrItem} {first rest : Bytes} (head : IsItem item first)
      (tail : AreItems items rest) : AreItems (item :: items) (first ++ rest)

/-- `CsrAttrs ::= SEQUENCE SIZE (0..MAX) OF AttrOrOID`, in DER. -/
def IsCsrAttrs (items : List CsrAttrItem) (der : Bytes) : Prop :=
  ∃ body, AreItems items body ∧ IsTlv 0x30 body der

/-! ## Parsing what is encoded -/

theorem derTakeTl_eq (p : Bytes) :
    derTakeTl p = (derReadTlv p).map fun (hdr, tag, len) => (tag, len, hdr) := by
  match p with
  | [] | [_] => rfl
  | tag :: first :: rest =>
    simp only [derTakeTl, derReadTlv]
    by_cases short : first &&& 0x80 = 0
    · rw [if_pos short, if_pos short]
      by_cases beyond : first.toNat > rest.length
      · rw [if_pos beyond, if_pos beyond]
        rfl
      · rw [if_neg beyond, if_neg beyond]
        rfl
    · rw [if_neg short, if_neg short]
      by_cases bad : (first &&& 0x7F).toNat = 0 ∨ (first &&& 0x7F).toNat > 4 ∨ rest.length < (first &&& 0x7F).toNat
      · rw [if_pos bad, if_pos (by omega)]
        rfl
      · rw [if_neg bad, if_neg (by omega)]
        have same : bigEndian (rest.take (first &&& 0x7F).toNat) =
          (rest.take (first &&& 0x7F).toNat).foldl (fun len b => len * 256 + b.toNat) 0 := rfl
        rw [same]
        by_cases beyond : (rest.take (first &&& 0x7F).toNat).foldl (fun len b => len * 256 + b.toNat) 0 >
            rest.length - (first &&& 0x7F).toNat
        · rw [if_pos beyond, if_pos (by omega)]
          rfl
        · rw [if_neg beyond, if_neg (by omega)]
          rfl

/-- An element at the front is taken with its content, whatever follows. -/
theorem derTakeTl_element {tag : UInt8} {content bytes : Bytes} (element : IsElement tag content bytes)
    (rest : Bytes) : ∃ hdr, derTakeTl (bytes ++ rest) = some (tag, content.length, hdr) ∧
      bytes.length = hdr + content.length ∧ (bytes ++ rest).drop (hdr + content.length) = rest ∧
      ((bytes ++ rest).drop hdr).take content.length = content := by
  obtain ⟨hdr, read, size, split⟩ := derReadTlv_element element rest
  refine ⟨hdr, by rw [derTakeTl_eq, read]; rfl, size, ?_, ?_⟩
  · rw [← size, List.drop_left]
  · rw [List.drop_append_of_le_length (by omega), split, List.take_left]

theorem derTakeTl_sound {p : Bytes} {tag : UInt8} {len hdr : Nat}
    (taken : derTakeTl p = some (tag, len, hdr)) :
    ∃ bytes, IsElement tag ((p.drop hdr).take len) bytes ∧ p = bytes ++ p.drop (hdr + len) ∧
      ((p.drop hdr).take len).length = len ∧ bytes.length = hdr + len := by
  rw [derTakeTl_eq, Option.map_eq_some_iff] at taken
  obtain ⟨⟨hdr', tag', len'⟩, read, same⟩ := taken
  cases same
  obtain ⟨bytes, rest, element, shape, width, size, rfl⟩ := derReadTlv_sound read
  exact ⟨bytes, element, shape, width, size⟩

theorem parseAttribute_attribute {oid values type set : Bytes} (typeTlv : IsTlv 0x06 oid type)
    (setTlv : IsTlv 0x31 values set) (filled : values ≠ []) :
    parseAttribute (type ++ set) = some (.attribute oid values) := by
  obtain ⟨hdr, taken, -, after, content⟩ := derTakeTl_element typeTlv.element set
  obtain ⟨hdr', taken', -, -, content'⟩ := derTakeTl_element setTlv.element []
  rw [List.append_nil] at taken' content'
  simp only [parseAttribute, taken, after, content, taken', content']
  rw [if_neg (by decide), if_neg setTlv.filled, if_neg (by simpa using filled)]

/-- The two passes on one item: how it starts, and what it is read as. -/
theorem IsItem.read {item : CsrAttrItem} {encoded : Bytes} (is : IsItem item encoded) (rest : Bytes) :
    ∃ tag len hdr, derTakeTl (encoded ++ rest) = some (tag, len, hdr) ∧ (tag = 0x06 ∨ tag = 0x30) ∧
      (encoded ++ rest).drop (hdr + len) = rest ∧
      (if tag = 0x06 then some (.bareOid (((encoded ++ rest).drop hdr).take len))
        else parseAttribute (((encoded ++ rest).drop hdr).take len)) = some item ∧ encoded ≠ [] := by
  match item, is with
  | .bareOid oid, ⟨_, tlv⟩ =>
      obtain ⟨hdr, taken, -, after, content⟩ := derTakeTl_element tlv.element rest
      exact ⟨_, _, hdr, taken, .inl rfl, after, by rw [if_pos rfl, content], tlv.filled⟩
  | .attribute oid values, ⟨⟨_, filled⟩, type, set, typeTlv, setTlv, tlv⟩ =>
      obtain ⟨hdr, taken, -, after, content⟩ := derTakeTl_element tlv.element rest
      refine ⟨_, _, hdr, taken, .inr rfl, after, ?_, tlv.filled⟩
      rw [if_neg (by decide), content, parseAttribute_attribute typeTlv setTlv filled]

theorem countItems_items {items : List CsrAttrItem} {body : Bytes} (are : AreItems items body) {fuel : Nat}
    (enough : body.length < fuel) : countItems fuel body = some items.length := by
  induction are generalizing fuel with
  | nil =>
      obtain ⟨fuel, rfl⟩ : ∃ f, fuel = f + 1 := ⟨fuel - 1, by omega⟩
      rfl
  | cons head tail ih =>
      rename_i item items first rest
      obtain ⟨fuel, rfl⟩ : ∃ f, fuel = f + 1 := ⟨fuel - 1, by omega⟩
      obtain ⟨tag, len, hdr, taken, kind, after, -, filled⟩ := head.read rest
      have positive := List.length_pos_iff.mpr filled
      rw [List.length_append] at enough
      rw [countItems, if_neg (by simp [filled]), taken]
      dsimp only
      rw [if_neg (by rintro ⟨other, another⟩; exact kind.elim other another), after,
        ih (by omega), List.length_cons]
      rfl

theorem classify_items (out : CsrAttrs) (item : CsrAttrItem) : (classify out item).items = out.items := by
  unfold classify applyPubkeyValues applySigalg
  repeat' split
  all_goals rfl

theorem parseItems_items {items : List CsrAttrItem} {body : Bytes} (are : AreItems items body) {fuel : Nat}
    (enough : body.length < fuel) (out : CsrAttrs) :
    ∃ attrs, parseItems fuel body out = some attrs ∧ attrs.items = out.items ++ items := by
  induction are generalizing fuel out with
  | nil =>
      obtain ⟨fuel, rfl⟩ : ∃ f, fuel = f + 1 := ⟨fuel - 1, by omega⟩
      exact ⟨out, rfl, by simp⟩
  | cons head tail ih =>
      rename_i item items first rest
      obtain ⟨fuel, rfl⟩ : ∃ f, fuel = f + 1 := ⟨fuel - 1, by omega⟩
      obtain ⟨tag, len, hdr, taken, -, after, read, filled⟩ := head.read rest
      have positive := List.length_pos_iff.mpr filled
      rw [List.length_append] at enough
      have fewer : rest.length < fuel := by omega
      obtain ⟨attrs, parsed, same⟩ := ih fewer
        (classify { out with items := out.items ++ [item] } item)
      refine ⟨attrs, ?_, ?_⟩
      · rw [parseItems, if_neg (by simp [filled]), taken]
        dsimp only
        rw [read, after]
        exact parsed
      · rw [same, classify_items]
        simp

section Parse

variable {σ : Type} {env : WolfCrypt σ}

/-- An input is accepted if its outer SEQUENCE parses. -/
theorem estParseCsrAttrs_cases {der : Bytes} {w w' : σ} {attrs : CsrAttrs} (filled : der ≠ [])
    (accepted : estParseCsrAttrs env der w = some (.ok attrs, w')) :
    ∃ len hdr, derTakeTl der = some (0x30, len, hdr) ∧
      parseItems (((der.drop hdr).take len).length + 1) ((der.drop hdr).take len) {} = some attrs := by
  rw [estParseCsrAttrs, if_neg filled] at accepted
  obtain ⟨-, v, -, accepted⟩ := Prog.bind_ok_iff.mp accepted
  cases taken : derTakeTl der with
  | none =>
      rw [taken] at accepted
      cases accepted
  | some header =>
      obtain ⟨tag, len, hdr⟩ := header
      rw [taken] at accepted
      obtain ⟨_, v', tagged, read⟩ := Prog.bind_ok_iff.mp accepted
      obtain ⟨rfl, -⟩ := Prog.require_ok_iff.mp tagged
      refine ⟨len, hdr, rfl, ?_⟩
      cases counted : countItems (((der.drop hdr).take len).length + 1) ((der.drop hdr).take len) with
      | none =>
          rw [counted] at read
          cases read
      | some n =>
          rw [counted] at read
          dsimp only at read
          cases parsed : parseItems (((der.drop hdr).take len).length + 1) ((der.drop hdr).take len) {} with
          | none =>
              rw [parsed] at read
              split at read
              · obtain ⟨_, v'', -, ended⟩ := Prog.bind_ok_iff.mp read
                cases ended
              · cases read
          | some found =>
              rw [parsed] at read
              split at read
              · obtain ⟨_, v'', -, ended⟩ := Prog.bind_ok_iff.mp read
                cases ended
                rfl
              · cases read
                rfl

/-- What is encoded is parsed into the same items. -/
theorem estParseCsrAttrs_encoded (granted : ∀ w n, (env.alloc w n).1 = true) {items : List CsrAttrItem}
    {der : Bytes} (encoded : IsCsrAttrs items der) (w : σ) :
    ∃ attrs w', estParseCsrAttrs env der w = some (.ok attrs, w') ∧ attrs.items = items := by
  obtain ⟨body, are, tlv⟩ := encoded
  obtain ⟨hdr, taken, -, -, content⟩ := derTakeTl_element tlv.element []
  rw [List.append_nil] at taken content
  obtain ⟨attrs, parsed, same⟩ := parseItems_items are (Nat.lt_succ_self _) {}
  have counted := countItems_items are (Nat.lt_succ_self _)
  rw [estParseCsrAttrs, if_neg tlv.filled, Prog.bind_of_ok (WolfCrypt.allocate_granted granted _ _),
    taken]
  dsimp only
  rw [Prog.bind_of_ok (Prog.require_of rfl _ _), content, counted]
  dsimp only
  rw [parsed]
  refine ⟨attrs, ?_⟩
  by_cases some : items.length > 0
  · rw [if_pos some, Prog.bind_of_ok (WolfCrypt.allocate_granted granted _ _)]
    exact ⟨_, rfl, by simpa using same⟩
  · rw [if_neg some]
    exact ⟨_, rfl, by simpa using same⟩

/-- The items of a canonical input are those it encodes. -/
theorem estParseCsrAttrs_canonical {items : List CsrAttrItem} {der : Bytes} {attrs : CsrAttrs} {w w' : σ}
    (encoded : IsCsrAttrs items der) (accepted : estParseCsrAttrs env der w = some (.ok attrs, w')) :
    attrs.items = items := by
  obtain ⟨body, are, tlv⟩ := encoded
  obtain ⟨len, hdr, taken, parsed⟩ := estParseCsrAttrs_cases tlv.filled accepted
  obtain ⟨hdr', taken', -, -, content⟩ := derTakeTl_element tlv.element []
  rw [List.append_nil] at taken' content
  rw [taken] at taken'
  cases taken'
  rw [content] at parsed
  obtain ⟨attrs', parsed', same⟩ := parseItems_items are (Nat.lt_succ_self _) {}
  rw [parsed] at parsed'
  cases parsed'
  simpa using same

end Parse

/-! ## What is built is canonical -/

theorem IsItem.buildable {item : CsrAttrItem} {encoded : Bytes} (is : IsItem item encoded) :
    item.Buildable := by
  match item, is with
  | .bareOid _, ⟨filled, _⟩ => exact filled
  | .attribute _ _, ⟨filled, _⟩ => exact filled

theorem IsItem.unique {item : CsrAttrItem} {encoded encoded' : Bytes} (is : IsItem item encoded)
    (is' : IsItem item encoded') : encoded = encoded' := by
  match item, is, is' with
  | .bareOid _, ⟨_, tlv⟩, ⟨_, tlv'⟩ => exact tlv.unique tlv'
  | .attribute _ _, ⟨_, type, set, typeTlv, setTlv, tlv⟩, ⟨_, type', set', typeTlv', setTlv', tlv'⟩ =>
      rw [typeTlv.unique typeTlv', setTlv.unique setTlv'] at tlv
      exact tlv.unique tlv'

theorem AreItems.unique {items : List CsrAttrItem} {body body' : Bytes} (are : AreItems items body)
    (are' : AreItems items body') : body = body' := by
  induction are generalizing body' with
  | nil =>
      cases are'
      rfl
  | cons head tail ih =>
      cases are' with
      | cons head' tail' => rw [head.unique head', ih tail']

theorem AreItems.buildable {items : List CsrAttrItem} {body : Bytes} (are : AreItems items body) :
    ∀ item ∈ items, item.Buildable := by
  induction are with
  | nil => simp
  | cons head tail ih =>
      intro item inside
      cases inside with
      | head => exact head.buildable
      | tail _ inside => exact ih item inside

section Canonical

variable {setLength : Nat → Bytes} (minimal : ∀ n < 2 ^ 32, MinimalLength n (setLength n))

theorem writeTlv_length (tag : UInt8) (content : Bytes) :
    (writeTlv setLength tag content).length = tlvSize setLength content.length := by
  simp only [writeTlv, tlvSize, List.cons_append, List.length_cons, List.length_append]
  omega

theorem writeItem_attribute (oid values : Bytes) : writeItem setLength (.attribute oid values) =
    writeTlv setLength 0x30 (writeTlv setLength 0x06 oid ++ writeTlv setLength 0x31 values) := by
  rw [writeTlv, List.length_append, writeTlv_length, writeTlv_length]
  rfl

/-- The two passes agree on the size of an item. -/
theorem writeItem_length (item : CsrAttrItem) :
    (writeItem setLength item).length = itemSize setLength item := by
  match item with
  | .bareOid oid => exact writeTlv_length 0x06 oid
  | .attribute oid values =>
      rw [writeItem_attribute, writeTlv_length, List.length_append, writeTlv_length, writeTlv_length]
      rfl

theorem writeItems_length (items : List CsrAttrItem) :
    (items.flatMap (writeItem setLength)).length = itemsSize setLength items := by
  simp only [List.length_flatMap, writeItem_length, itemsSize]

theorem lt_tlvSize (setLength : Nat → Bytes) (n : Nat) : n < tlvSize setLength n := by
  unfold tlvSize
  omega

include minimal in
theorem writeTlv_tlv (tag : UInt8) {content : Bytes} (small : content.length < 2 ^ 32) :
    IsTlv tag content (writeTlv setLength tag content) := by
  rw [isTlv_iff]
  exact ⟨_, minimal _ small, by rw [writeTlv, Nat.mod_eq_of_lt small]⟩

include minimal in
theorem writeItem_item {item : CsrAttrItem} (filled : item.Buildable)
    (small : itemSize setLength item < 2 ^ 32) : IsItem item (writeItem setLength item) := by
  match item, filled with
  | .bareOid oid, filled =>
      have inside := lt_tlvSize setLength oid.length
      exact ⟨filled, writeTlv_tlv minimal 0x06 (Nat.lt_trans inside small)⟩
  | .attribute oid values, filled =>
      simp only [itemSize] at small
      have inside := lt_tlvSize setLength
        (tlvSize setLength oid.length + tlvSize setLength values.length)
      have first := lt_tlvSize setLength oid.length
      have second := lt_tlvSize setLength values.length
      refine ⟨filled, _, _, writeTlv_tlv minimal 0x06 (by omega), writeTlv_tlv minimal 0x31 (by omega), ?_⟩
      rw [writeItem_attribute]
      refine writeTlv_tlv minimal 0x30 ?_
      rw [List.length_append, writeTlv_length, writeTlv_length]
      omega

include minimal in
theorem writeItems_items {items : List CsrAttrItem} (filled : ∀ item ∈ items, item.Buildable)
    (small : itemsSize setLength items < 2 ^ 32) : AreItems items (items.flatMap (writeItem setLength)) := by
  induction items with
  | nil => exact .nil
  | cons item items ih =>
      simp only [itemsSize, List.map_cons, List.sum_cons] at small
      rw [List.flatMap_cons]
      refine .cons (writeItem_item minimal (filled item List.mem_cons_self) (by omega))
        (ih (fun other inside => filled other (List.mem_cons_of_mem _ inside)) ?_)
      rw [itemsSize]
      omega

/-- The encoding that a build of the items writes. -/
def builtAttrs (setLength : Nat → Bytes) (items : List CsrAttrItem) : Bytes :=
  writeTlv setLength 0x30 (items.flatMap (writeItem setLength))

include minimal in
theorem builtAttrs_canonical {items : List CsrAttrItem} (filled : ∀ item ∈ items, item.Buildable)
    (small : itemsSize setLength items < 2 ^ 32) : IsCsrAttrs items (builtAttrs setLength items) :=
  ⟨_, writeItems_items minimal filled small, writeTlv_tlv minimal 0x30 (by rwa [writeItems_length])⟩

theorem csrAttrsBuild_ok_iff {σ : Type} {env : WolfCrypt σ} {items : List CsrAttrItem} {built : BuiltAttrs}
    {w w' : σ} : csrAttrsBuild setLength env items w = some (.ok built, w') ↔
      (∀ item ∈ items, item.Buildable) ∧ built.written = builtAttrs setLength items ∧
        built.len = built.written.length ∧ env.alloc w built.len = (true, w') := by
  have shape : (0x30 :: setLength (itemsSize setLength items % 2 ^ 32) ++ items.flatMap (writeItem setLength)) =
      builtAttrs setLength items := by
    rw [builtAttrs, writeTlv, writeItems_length]
  have size : (builtAttrs setLength items).length = tlvSize setLength (itemsSize setLength items) := by
    rw [builtAttrs, writeTlv_length, writeItems_length]
  simp only [csrAttrsBuild, shape, ← size, Prog.bind_ok_iff, Prog.require_ok_iff, WolfCrypt.allocate_ok_iff]
  constructor
  · rintro ⟨-, v, ⟨filled, rfl⟩, -, v', granted, ended⟩
    cases ended
    exact ⟨filled, rfl, rfl, granted⟩
  · obtain ⟨written, len⟩ := built
    rintro ⟨filled, rfl, size', granted⟩
    dsimp only at size' granted
    subst size'
    exact ⟨(), w, ⟨filled, rfl⟩, (), w', granted, rfl⟩

/-- A `SetLength` that takes the fewest octets. -/
def exampleSetLength (n : Nat) : Bytes := (derPutLen 8 n).getD []

theorem exampleSetLength_minimal (n : Nat) (small : n < 2 ^ 32) : MinimalLength n (exampleSetLength n) := by
  obtain ⟨len, few, -, put⟩ := derPutLen_fits small
  rw [minimalLength_iff small, exampleSetLength, put 8 (by omega)]
  rfl

def exampleCodec : WolfCrypt Http.Wire :=
  { exampleCrypt ⟨[], [], [], []⟩ with alloc := fun w _ => (true, w) }

/-- What is built from a list of items is parsed back into it. -/
theorem csr_attrs_decode_encode {σ : Type} {env : WolfCrypt σ}
    (minimal : ∀ n < 2 ^ 32, MinimalLength n (setLength n))
    (granted : ∀ w n, (env.alloc w n).1 = true) (items : List CsrAttrItem)
    (filled : ∀ item ∈ items, item.Buildable)
    (small : tlvSize setLength (itemsSize setLength items) < 2 ^ 32) (w : σ) :
    ∃ built w', csrAttrsBuild setLength env items w = some (.ok built, w') ∧
      built.written.length = built.len ∧
      ∃ attrs w'', estParseCsrAttrs env built.written w' = some (.ok attrs, w'') ∧ attrs.items = items := by
  refine ⟨⟨builtAttrs setLength items, (builtAttrs setLength items).length⟩,
    (env.alloc w (builtAttrs setLength items).length).2, ?_, rfl, ?_⟩
  · rw [csrAttrsBuild_ok_iff]
    exact ⟨filled, rfl, rfl, Prod.ext (granted _ _) rfl⟩
  · have inside := lt_tlvSize setLength (itemsSize setLength items)
    exact estParseCsrAttrs_encoded granted (builtAttrs_canonical minimal filled (by omega)) _

def exampleItem : CsrAttrItem :=
  let type : Bytes := [2]
  .attribute type [5]

theorem csr_attrs_decode_encode_two :
    ∃ built w', csrAttrsBuild exampleSetLength exampleCodec [.bareOid [1], exampleItem]
        ⟨[], [], false, false⟩ = some (.ok built, w') ∧ built.written.length = built.len ∧
      ∃ attrs w'', estParseCsrAttrs exampleCodec built.written w' = some (.ok attrs, w'') ∧
        attrs.items = [.bareOid [1], exampleItem] :=
  csr_attrs_decode_encode exampleSetLength_minimal (fun _ _ => rfl) _ (by decide) (by decide) _

/-! ## Which inputs are built again -/

include minimal in
/-- No encoding of an element is shorter than the one that is built. -/
theorem tlvSize_le {tag : UInt8} {content bytes : Bytes} (element : IsElement tag content bytes) :
    tlvSize setLength content.length ≤ bytes.length := by
  obtain ⟨len, octets, rfl⟩ := element
  have fewest := (minimal _ octets.lt).2 len octets
  rw [tlvSize, Nat.mod_eq_of_lt octets.lt]
  simp only [List.length_cons, List.length_append]
  omega

include minimal in
theorem tlvSize_mono {n m : Nat} (le : n ≤ m) (small : m < 2 ^ 32) :
    tlvSize setLength n ≤ tlvSize setLength m := by
  have first := (minimalLength_iff (Nat.lt_of_le_of_lt le small)).mp (minimal n (by omega))
  have second := (minimalLength_iff small).mp (minimal m small)
  have octets := derPutLen_mono first second le
  rw [tlvSize, tlvSize, Nat.mod_eq_of_lt (Nat.lt_of_le_of_lt le small), Nat.mod_eq_of_lt small]
  omega

include minimal in
/-- An attribute needs no more room than it was read from. -/
theorem parseAttribute_size {inner : Bytes} {item : CsrAttrItem} (parsed : parseAttribute inner = some item)
    (small : inner.length < 2 ^ 32) : itemSize setLength item ≤ tlvSize setLength inner.length := by
  unfold parseAttribute at parsed
  split at parsed
  · cases parsed
  · rename_i tag len hdr taken
    obtain ⟨type, typeElement, shape, -, -⟩ := derTakeTl_sound taken
    dsimp only at parsed
    split at parsed
    · cases parsed
    · split at parsed
      · cases parsed
      · split at parsed
        · cases parsed
        · rename_i setTag setLen setHdr taken'
          obtain ⟨set, setElement, shape', -, -⟩ := derTakeTl_sound taken'
          split at parsed
          · cases parsed
          · cases parsed
            have first := tlvSize_le minimal typeElement
            have second := tlvSize_le minimal setElement
            have whole := congrArg List.length shape
            have rest := congrArg List.length shape'
            rw [List.length_append] at whole rest
            exact tlvSize_mono minimal (by omega) small

include minimal in
theorem parseItems_size {fuel : Nat} {p : Bytes} {out attrs : CsrAttrs}
    (parsed : parseItems fuel p out = some attrs) :
    itemsSize setLength attrs.items ≤ itemsSize setLength out.items + p.length := by
  induction fuel generalizing p out with
  | zero => cases parsed
  | succ fuel ih =>
      unfold parseItems at parsed
      split at parsed
      · cases parsed
        exact Nat.le_add_right _ _
      · split at parsed
        · cases parsed
        · rename_i tag len hdr taken
          obtain ⟨bytes, element, shape, width, size⟩ := derTakeTl_sound taken
          have consumed := congrArg List.length shape
          rw [List.length_append] at consumed
          dsimp only at parsed
          split at parsed
          · cases parsed
          · rename_i item read
            -- the item read from the element at the front needs no more room than the element
            have one : itemSize setLength item ≤ bytes.length := by
              have whole := tlvSize_le minimal element
              split at read
              · cases read
                exact whole
              · obtain ⟨len', octets, -⟩ := element
                exact Nat.le_trans (parseAttribute_size minimal read octets.lt) whole
            have rest := ih parsed
            rw [classify_items] at rest
            simp only [itemsSize, List.map_append, List.sum_append, List.map_cons, List.map_nil,
              List.sum_cons, List.sum_nil] at rest ⊢
            omega

include minimal in
/-- An accepted input has items that fit into a SEQUENCE again. -/
theorem estParseCsrAttrs_size {σ : Type} {env : WolfCrypt σ} {der : Bytes} {attrs : CsrAttrs} {w w' : σ}
    (filled : der ≠ []) (accepted : estParseCsrAttrs env der w = some (.ok attrs, w')) :
    itemsSize setLength attrs.items < 2 ^ 32 := by
  obtain ⟨len, hdr, taken, parsed⟩ := estParseCsrAttrs_cases filled accepted
  obtain ⟨bytes, ⟨len', octets, -⟩, -, -, -⟩ := derTakeTl_sound taken
  have bound := parseItems_size minimal parsed
  have outer := octets.lt
  simp only [itemsSize, List.map_nil, List.sum_nil, Nat.zero_add] at bound ⊢
  omega

/-- An accepted input is built again from its items exactly if it is the DER of some. -/
theorem csr_attrs_encode_decode_iff {σ : Type} {env : WolfCrypt σ}
    (minimal : ∀ n < 2 ^ 32, MinimalLength n (setLength n)) {der : Bytes} (filled : der ≠ [])
    {attrs : CsrAttrs} {w w' : σ} (accepted : estParseCsrAttrs env der w = some (.ok attrs, w')) (v : σ) :
    (∃ v', csrAttrsBuild setLength env attrs.items v = some (.ok ⟨der, der.length⟩, v')) ↔
      (∃ items, IsCsrAttrs items der) ∧ (env.alloc v der.length).1 = true := by
  have small := estParseCsrAttrs_size minimal filled accepted
  constructor
  · rintro ⟨v', built⟩
    obtain ⟨whole, written, -, granted⟩ := csrAttrsBuild_ok_iff.mp built
    dsimp only at written granted
    refine ⟨⟨attrs.items, ?_⟩, by rw [granted]⟩
    rw [written]
    exact builtAttrs_canonical minimal whole small
  · rintro ⟨⟨items, encoded⟩, granted⟩
    have same := estParseCsrAttrs_canonical encoded accepted
    rw [same] at small ⊢
    obtain ⟨body, are, tlv⟩ := encoded
    obtain ⟨body', are', tlv'⟩ := builtAttrs_canonical minimal are.buildable small
    rw [are.unique are'] at tlv
    have written := tlv.unique tlv'
    exact ⟨(env.alloc v der.length).2, csrAttrsBuild_ok_iff.mpr
      ⟨are.buildable, written, rfl, Prod.ext granted rfl⟩⟩

theorem csr_attrs_encode_decode_empty :
    ∃ v', csrAttrsBuild exampleSetLength exampleCodec [] ⟨[], [], false, false⟩ =
      some (.ok ⟨[0x30, 0], 2⟩, v') :=
  (csr_attrs_encode_decode_iff exampleSetLength_minimal (List.cons_ne_nil _ _)
    (show estParseCsrAttrs exampleCodec [0x30, 0] ⟨[], [], false, false⟩ = some (.ok {}, ⟨[], [], false, false⟩)
      from rfl) ⟨[], [], false, false⟩).mpr ⟨⟨[], [], .nil, 2, rfl⟩, rfl⟩

/-- A byte after the outer SEQUENCE is accepted, and not built again. -/
theorem csr_attrs_trailing_byte :
    estParseCsrAttrs exampleCodec [0x30, 0, 0] ⟨[], [], false, false⟩ =
        some (.ok {}, ⟨[], [], false, false⟩) ∧
      csrAttrsBuild exampleSetLength exampleCodec (CsrAttrs.items {}) ⟨[], [], false, false⟩ =
        some (.ok ⟨[0x30, 0], 2⟩, ⟨[], [], false, false⟩) :=
  ⟨rfl, rfl⟩

end Canonical

end WolfCert.Est
