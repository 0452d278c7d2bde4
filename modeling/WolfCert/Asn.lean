import WolfCert.Errors
import WolfCert.Scep.Der

/-!
# The extension walker

`wolfcert_find_san` of `internal.c`, over the ASN.1 readers of wolfSSL.
-/

namespace WolfCert

open WolfCert.CLib WolfCert.Scep

/-- `GetASNTag` and `GetLength`: from an index, and not past a limit, the value read and the index
after it. -/
structure Asn where
  getTag : Bytes → Nat → Nat → Option (UInt8 × Nat)
  getLength : Bytes → Nat → Nat → Option (Nat × Nat)

/-- `encoded` is the element with that tag and content. -/
def IsTlv (tag : UInt8) (content encoded : Bytes) : Prop :=
  ∃ cap, encTlv tag content cap = some encoded

/-- Where an element stands in its DER, the readers of wolfSSL find its tag and its length. -/
structure Asn.Lawful (asn : Asn) : Prop where
  tag : ∀ {tag : UInt8} {content encoded rest input : Bytes} {idx max : Nat}, IsTlv tag content encoded →
    (input.take max).drop idx = encoded ++ rest → asn.getTag input idx max = some (tag, idx + 1)
  length : ∀ {tag : UInt8} {content encoded rest input : Bytes} {idx max : Nat},
    IsTlv tag content encoded → (input.take max).drop idx = encoded ++ rest →
    asn.getLength input (idx + 1) max = some (content.length, idx + (encoded.length - content.length))

/-- The fields of a `DecodedCert` that make its identity: no subject is NULL, no extensions are empty
bytes. -/
structure CertIdentity where
  isCsr : Bool
  subjectRaw : Option Bytes
  extensions : Bytes
  extSubjAltNameCrit : Bool
deriving DecidableEq, Repr

variable (asn : Asn)

/-- An element that has to have that tag: its length, and where its content starts. -/
def expectTlv (tag : UInt8) (input : Bytes) (idx max : Nat) : Option (Nat × Nat) :=
  match asn.getTag input idx max with
  | none => none
  | some (found, idx) => if found ≠ tag then none else asn.getLength input idx max

/-- Skip the BOOLEAN in front of an extension value, if there is one. -/
def skipCritical (ext : Bytes) (idx extEnd : Nat) : Option Nat :=
  if idx < extEnd ∧ charAt (ext.drop idx) = 0x01 then
    match asn.getTag ext idx extEnd with
    | none => none
    | some (_, idx) => (asn.getLength ext idx extEnd).map fun (len, idx) => idx + len
  else some idx

def sanOid : Bytes := [0x06, 0x03, 0x55, 0x1D, 0x11]

/-- The value of the extension whose OID ends at `idx`. -/
def sanValue (ext : Bytes) (idx extEnd : Nat) : Option Bytes :=
  match skipCritical asn ext idx extEnd with
  | none => none
  | some idx =>
      (expectTlv asn 0x04 ext idx extEnd).map fun (len, idx) => (ext.drop idx).take len

/-- The loop over the extensions; every turn reads a tag, so their size bounds the turns. -/
def findSanFrom (ext : Bytes) (stop : Nat) : Nat → Nat → Except Rc (Option Bytes)
  | 0, _ => .error .errParse
  | fuel + 1, idx =>
      if idx < stop then
        match expectTlv asn 0x30 ext idx stop with
        | none => .error .errParse
        | some (len, idx) =>
            if len < sanOid.length ∨ (ext.drop idx).take sanOid.length ≠ sanOid then
              findSanFrom ext stop fuel (idx + len)
            else
              match sanValue asn ext (idx + sanOid.length) (idx + len) with
              | none => .error .errParse
              | some san => .ok (some san)
      else .ok none

/-- The list of extensions of a request, or of a certificate, where a context tag wraps it. -/
def extensionList (dc : CertIdentity) : Option (Nat × Nat) :=
  let size := dc.extensions.length
  if dc.isCsr then expectTlv asn 0x30 dc.extensions 0 size
  else
    match expectTlv asn 0xA3 dc.extensions 0 size with
    | none => none
    | some (_, idx) => expectTlv asn 0x30 dc.extensions idx size

def findSan (dc : CertIdentity) : Except Rc (Option Bytes) :=
  if dc.extensions = [] then .ok none
  else
    match extensionList asn dc with
    | none => .error .errParse
    | some (len, idx) => findSanFrom asn dc.extensions (idx + len) (dc.extensions.length + 1) idx

/-! ## Encoded extensions -/

structure Extension where
  oid : Bytes
  critical : Bool
  value : Bytes
deriving DecidableEq, Repr

/-- `Extension ::= SEQUENCE { OID, critical BOOLEAN OPTIONAL, OCTET STRING }`. -/
def IsExtension (e : Extension) (encoded : Bytes) : Prop :=
  ∃ oid critical value, IsTlv 0x06 e.oid oid ∧
    (if e.critical then IsTlv 0x01 [0xFF] critical else critical = []) ∧
    IsTlv 0x04 e.value value ∧ IsTlv 0x30 (oid ++ (critical ++ value)) encoded

inductive AreExtensions : List Extension → Bytes → Prop where
  | nil : AreExtensions [] []
  | cons {e : Extension} {es : List Extension} {first rest : Bytes} (head : IsExtension e first)
      (tail : AreExtensions es rest) : AreExtensions (e :: es) (first ++ rest)

section Walk

variable {asn} (lawful : asn.Lawful) {tag : UInt8} {content encoded input rest : Bytes} {idx max : Nat}

include lawful in
/-- An encoded element is read where it stands. -/
theorem expectTlv_tlv (tlv : IsTlv tag content encoded)
    (here : (input.take max).drop idx = encoded ++ rest) :
    ∃ hdr, expectTlv asn tag input idx max = some (content.length, idx + hdr) ∧
      encoded.length = hdr + content.length ∧ encoded.drop hdr = content := by
  obtain ⟨hdr, -, size, split⟩ := derReadTlv_encTlv tlv.choose_spec rest
  refine ⟨hdr, ?_, size, split⟩
  have header : encoded.length - content.length = hdr := by omega
  simp [expectTlv, lawful.tag tlv here, lawful.length tlv here, header]

/-- What follows a header in the input. -/
theorem drop_content {hdr : Nat} (size : encoded.length = hdr + content.length)
    (split : encoded.drop hdr = content) (here : (input.take max).drop idx = encoded ++ rest) :
    (input.take max).drop (idx + hdr) = content ++ rest := by
  rw [← List.drop_drop, here, List.drop_append_of_le_length (by omega), split]

/-- The input up to the end of an element, from where its content starts. -/
theorem window {start stop : Nat} (here : (input.take stop).drop start = content ++ rest) :
    (input.take (start + content.length)).drop start = content := by
  have size := congrArg List.length here
  simp only [List.length_drop, List.length_take, List.length_append] at size
  by_cases empty : content = []
  · simp [empty]
  · have positive := List.length_pos_iff.mpr empty
    rw [List.drop_take, Nat.add_sub_cancel_left]
    have taken := congrArg (List.take content.length) here
    rwa [List.drop_take, List.take_take, Nat.min_eq_left (by omega), List.take_left] at taken

theorem charAt_window {start stop : Nat} {c : UInt8} (here : (input.take stop).drop start = c :: rest) :
    charAt (input.drop start) = c := by
  have size := congrArg List.length here
  simp only [List.length_drop, List.length_take, List.length_cons] at size
  rw [List.drop_take] at here
  cases cut : input.drop start with
  | nil => simp [cut] at here
  | cons d more =>
      rw [cut, show stop - start = (stop - start - 1) + 1 by omega, List.take_succ_cons] at here
      exact (List.cons.inj here).1

theorem IsTlv.cons (tlv : IsTlv tag content encoded) :
    ∃ len, encoded = tag :: len ++ content ∧ derPutLen 8 content.length = some len := by
  obtain ⟨cap, put⟩ := tlv
  unfold encTlv at put
  split at put
  · cases put
  · split at put
    · cases put
    · rename_i len written
      split at put
      · cases put
      · cases put
        exact ⟨len, rfl, derPutLen_eight written⟩

theorem IsTlv.sanOid {encoded : Bytes} (tlv : IsTlv 0x06 [0x55, 0x1D, 0x11] encoded) :
    encoded = WolfCert.sanOid := by
  obtain ⟨len, rfl, put⟩ := tlv.cons
  cases put
  rfl

/-- Only the OID of the subject alternative name starts as that one does. -/
theorem sanOid_iff {oid encoded : Bytes} (tlv : IsTlv 0x06 oid encoded) (more : Bytes) :
    (encoded ++ more).take sanOid.length = sanOid ↔ oid = [0x55, 0x1D, 0x11] := by
  constructor
  · intro same
    obtain ⟨len, rfl, put⟩ := tlv.cons
    unfold derPutLen at put
    split at put
    · rename_i short
      cases put
      simp only [List.cons_append, List.nil_append, List.take_succ_cons, sanOid, List.length_cons,
        List.length_nil, List.cons.injEq] at same
      have three : oid.length = 3 := by
        have low := congrArg UInt8.toNat same.2.1
        simp at low
        omega
      obtain ⟨a, b, c, rfl⟩ := List.length_eq_three.mp three
      simpa using same.2.2
    · repeat' split at put
      all_goals cases put
      all_goals simp [sanOid] at same
  · rintro rfl
    rw [tlv.sanOid]
    rfl

include lawful in
/-- The value of the extension is found behind its OID and the optional BOOLEAN. -/
theorem sanValue_encoded {critical value : Bytes} {crit : Bool} {encodedValue : Bytes} {stop : Nat}
    (flag : if crit then IsTlv 0x01 [0xFF] critical else critical = [])
    (octets : IsTlv 0x04 value encodedValue)
    (here : (input.take stop).drop idx = critical ++ encodedValue) :
    sanValue asn input idx stop = some value := by
  have skipped : skipCritical asn input idx stop = some (idx + critical.length) := by
    unfold skipCritical
    cases crit with
    | true =>
        simp only [if_true] at flag
        have tag := lawful.tag flag here
        have length := lawful.length flag here
        obtain ⟨len, rfl, -⟩ := flag.cons
        have inside : idx < stop := by
          have size := congrArg List.length here
          simp only [List.length_drop, List.length_take, List.length_append, List.length_cons] at size
          omega
        rw [if_pos ⟨inside, charAt_window here⟩, tag]
        simp only [length, Option.map_some, Option.some.injEq, List.length_append, List.length_cons]
        omega
    | false =>
        obtain rfl : critical = [] := flag
        obtain ⟨len, rfl, -⟩ := octets.cons
        have other : charAt (input.drop idx) ≠ 0x01 := by
          rw [charAt_window here]
          decide
        rw [if_neg fun both => other both.2]
        rfl
  have there : (input.take stop).drop (idx + critical.length) = encodedValue ++ [] := by
    rw [← List.drop_drop, here, List.drop_left, List.append_nil]
  obtain ⟨hdr, expected, size, split⟩ := expectTlv_tlv lawful octets there
  have content := drop_content size split there
  simp only [sanValue, skipped, expected, Option.map_some, Option.some.injEq]
  have inner := window content
  rwa [List.drop_take, Nat.add_sub_cancel_left] at inner

include lawful in
/-- The walker finds the value of the first subject alternative name. -/
theorem findSanFrom_extensions {es : List Extension} {body : Bytes} {stop fuel : Nat}
    (exts : AreExtensions es body) (here : (input.take stop).drop idx = body)
    (within : idx + body.length = stop) (enough : body.length < fuel) :
    findSanFrom asn input stop fuel idx =
      .ok ((es.find? (·.oid = [0x55, 0x1D, 0x11])).map Extension.value) := by
  induction exts generalizing idx fuel with
  | nil =>
      cases fuel with
      | zero => omega
      | succ fuel =>
          simp only [List.length_nil] at within
          simp [findSanFrom, show ¬ idx < stop by omega]
  | cons head tail ih =>
      rename_i e es first rest
      obtain ⟨oid, critical, value, oidTlv, flag, octets, whole⟩ := head
      obtain ⟨hdr, expected, size, split⟩ := expectTlv_tlv lawful whole here
      have content := drop_content size split here
      simp only [List.length_append] at size within enough
      cases fuel with
      | zero => omega
      | succ fuel =>
          have positive : 0 < first.length := by
            obtain ⟨len, rfl, -⟩ := whole.cons
            simp
          simp only [findSanFrom, if_pos (show idx < stop by omega), expected]
          have inner := window content
          have start : sanOid.length ≤ (oid ++ (critical ++ value)).length →
              (input.drop (idx + hdr)).take sanOid.length =
                (oid ++ (critical ++ value)).take sanOid.length := by
            intro long
            have cut := congrArg (List.take sanOid.length) inner
            rwa [List.drop_take, Nat.add_sub_cancel_left, List.take_take, Nat.min_eq_left long] at cut
          by_cases san : e.oid = [0x55, 0x1D, 0x11]
          · have whose : oid = sanOid := (san ▸ oidTlv).sanOid
            have long : sanOid.length ≤ (oid ++ (critical ++ value)).length := by simp [whose]
            rw [if_neg (by
              rw [start long, (sanOid_iff oidTlv _).mpr san]
              exact fun other => other.elim (by omega) (fun differs => differs rfl))]
            have behind : (input.take (idx + hdr + (oid ++ (critical ++ value)).length)).drop
                (idx + hdr + sanOid.length) = critical ++ value := by
              rw [← List.drop_drop, inner, whose, List.drop_left]
            rw [sanValue_encoded lawful flag octets behind]
            simp [san]
          · rw [if_pos (by
              by_contra found
              obtain ⟨long, same⟩ := not_or.mp found
              rw [not_not, start (by omega)] at same
              exact san ((sanOid_iff oidTlv _).mp same))]
            have after : (input.take stop).drop (idx + hdr + (oid ++ (critical ++ value)).length) =
                rest := by
              rw [← List.drop_drop, content, List.drop_left]
            rw [ih after (by simp only [List.length_append]; omega) (by omega)]
            simp [san]

include lawful in
/-- The walker finds the subject alternative name among the extensions of a request. -/
theorem findSan_csr {dc : CertIdentity} {es : List Extension} {body : Bytes} (csr : dc.isCsr = true)
    (exts : AreExtensions es body) (list : IsTlv 0x30 body dc.extensions) :
    findSan asn dc = .ok ((es.find? (·.oid = [0x55, 0x1D, 0x11])).map Extension.value) := by
  have here : (dc.extensions.take dc.extensions.length).drop 0 = dc.extensions ++ [] := by simp
  obtain ⟨hdr, expected, size, split⟩ := expectTlv_tlv lawful list here
  have some : dc.extensions ≠ [] := by
    obtain ⟨len, shape, -⟩ := list.cons
    simp [shape]
  simp only [findSan, some, if_false, extensionList, csr, if_true, expected]
  have content := drop_content size split here
  rw [List.append_nil, Nat.zero_add] at content
  exact findSanFrom_extensions lawful exts
    (by rw [Nat.zero_add, ← size]; exact content) (by omega) (by omega)

end Walk

/-! Readers for concrete runs, made from the library's own. -/

def exampleAsn : Asn where
  getTag input idx max := ((input.take max).drop idx).head?.map fun tag => (tag, idx + 1)
  getLength input idx max :=
    (derReadTlv ((input.take max).drop (idx - 1))).map fun (hdr, _, clen) => (clen, idx - 1 + hdr)

theorem exampleAsn_lawful : exampleAsn.Lawful where
  tag tlv here := by
    obtain ⟨len, rfl, -⟩ := tlv.cons
    simp only [exampleAsn, here]
    rfl
  length {_ _ _ rest} _ _ _ tlv here := by
    obtain ⟨cap, put⟩ := tlv
    obtain ⟨hdr, read, size, -⟩ := derReadTlv_encTlv put rest
    simp only [exampleAsn, Nat.add_sub_cancel, here, read, Option.map_some, size]

end WolfCert
