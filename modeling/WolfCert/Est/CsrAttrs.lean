import WolfCert.Csr

/-!
# CSR attributes

The parser of `csr_attrs.c` and the policy check that the EST server makes with it.
-/

namespace WolfCert.Est

open WolfCert.CLib WolfCert.Scep WolfCert.Server

variable {σ : Type}

/-- The tag, the content length and the header size of the element at the front. -/
def derTakeTl : Bytes → Option (UInt8 × Nat × Nat)
  | tag :: first :: rest =>
      if first &&& 0x80 = 0 then
        if first.toNat > rest.length then none else some (tag, first.toNat, 2)
      else
        let n := (first &&& 0x7F).toNat
        if n = 0 ∨ n > 4 ∨ 2 + n > rest.length + 2 then none
        else
          let len := (rest.take n).foldl (fun len b => len * 256 + b.toNat) 0
          if len > rest.length + 2 - (2 + n) then none else some (tag, len, 2 + n)
  | _ => none

/-- The reader of `est_server.c`. -/
def csrTakeTl : Bytes → Option (UInt8 × Nat × Nat)
  | tag :: first :: rest =>
      if first &&& 0x80 = 0 then
        if first.toNat > rest.length then none else some (tag, first.toNat, 2)
      else
        let n := (first &&& 0x7F).toNat
        if n = 0 ∨ n > 4 ∨ 2 + n > rest.length + 2 then none
        else
          let l := (rest.take n).foldl (fun l b => l * 256 + b.toNat) 0
          if l > rest.length + 2 - (2 + n) then none else some (tag, l, 2 + n)
  | _ => none

theorem csrTakeTl_eq (p : Bytes) : csrTakeTl p = derTakeTl p := by
  rcases p with _ | ⟨tag, _ | ⟨first, rest⟩⟩
  · rfl
  · rfl
  · rfl

/-- An item is a bare OID, or an attribute with the encoding of its values. -/
inductive CsrAttrItem where
  | bareOid (oid : Bytes)
  | attribute (oid values : Bytes)
deriving DecidableEq, Repr

def CsrAttrItem.oid : CsrAttrItem → Bytes
  | .bareOid oid | .attribute oid _ => oid

/-- `WolfCertCsrAttrs`: the items, and the hints taken from the OIDs that are known. -/
structure CsrAttrs where
  items : List CsrAttrItem := []
  requireChallengePassword : Bool := false
  requireExtensionRequest : Bool := false
  preferredHash : Nat := 0
  preferredKeyType : Option KeyAlg := none
  preferredEccCurveBits : Nat := 0
deriving DecidableEq, Repr

def oidChallengePassword : Bytes := [0x2A, 0x86, 0x48, 0x86, 0xF7, 0x0D, 0x01, 0x09, 0x07]

def oidExtensionRequest : Bytes := [0x2A, 0x86, 0x48, 0x86, 0xF7, 0x0D, 0x01, 0x09, 0x0E]

def oidRsaEncryption : Bytes := [0x2A, 0x86, 0x48, 0x86, 0xF7, 0x0D, 0x01, 0x01, 0x01]

def oidEcPublicKey : Bytes := [0x2A, 0x86, 0x48, 0xCE, 0x3D, 0x02, 0x01]

/-- The algorithms that name a signature, with the hash they pin, if any. -/
def sigAlgs : List (Bytes × Option Nat × KeyAlg) :=
  [([0x2A, 0x86, 0x48, 0x86, 0xF7, 0x0D, 0x01, 0x01, 0x0B], some 256, .rsa),
    ([0x2A, 0x86, 0x48, 0x86, 0xF7, 0x0D, 0x01, 0x01, 0x0C], some 384, .rsa),
    ([0x2A, 0x86, 0x48, 0x86, 0xF7, 0x0D, 0x01, 0x01, 0x0D], some 512, .rsa),
    ([0x2A, 0x86, 0x48, 0xCE, 0x3D, 0x04, 0x03, 0x02], some 256, .ecc),
    ([0x2A, 0x86, 0x48, 0xCE, 0x3D, 0x04, 0x03, 0x03], some 384, .ecc),
    ([0x2A, 0x86, 0x48, 0xCE, 0x3D, 0x04, 0x03, 0x04], some 512, .ecc),
    ([0x2B, 0x65, 0x70], none, .ed25519),
    ([0x2B, 0x65, 0x71], none, .ed448),
    ([0x60, 0x86, 0x48, 0x01, 0x65, 0x03, 0x04, 0x03, 0x11], none, .mldsa44),
    ([0x60, 0x86, 0x48, 0x01, 0x65, 0x03, 0x04, 0x03, 0x12], none, .mldsa65),
    ([0x60, 0x86, 0x48, 0x01, 0x65, 0x03, 0x04, 0x03, 0x13], none, .mldsa87)]

def curveBits : List (Bytes × Nat) :=
  [([0x2A, 0x86, 0x48, 0xCE, 0x3D, 0x03, 0x01, 0x07], 256),
    ([0x2B, 0x81, 0x04, 0x00, 0x22], 384),
    ([0x2B, 0x81, 0x04, 0x00, 0x23], 521)]

def applySigalg (out : CsrAttrs) (oid : Bytes) : CsrAttrs :=
  match sigAlgs.find? (·.1 = oid) with
  | none => out
  | some (_, hash, type) =>
      { out with preferredHash := hash.getD out.preferredHash, preferredKeyType := some type }

def applyPubkeyValues (out : CsrAttrs) (type : KeyAlg) (values : Bytes) : CsrAttrs :=
  let out := { out with preferredKeyType := some type }
  if type ≠ .ecc then out
  else
    match derTakeTl values with
    | some (0x06, len, hdr) =>
        match curveBits.find? (·.1 = (values.drop hdr).take len) with
        | none => out
        | some (_, bits) => { out with preferredEccCurveBits := bits }
    | _ => out

def CsrAttrItem.values : CsrAttrItem → Bytes
  | .bareOid _ => []
  | .attribute _ values => values

def classify (out : CsrAttrs) (item : CsrAttrItem) : CsrAttrs :=
  if item.oid = oidChallengePassword then { out with requireChallengePassword := true }
  else if item.oid = oidExtensionRequest then { out with requireExtensionRequest := true }
  else if item.oid = oidRsaEncryption then applyPubkeyValues out .rsa item.values
  else if item.oid = oidEcPublicKey then applyPubkeyValues out .ecc item.values
  else applySigalg out item.oid

/-- The first pass: how many items there are, each an OID or a SEQUENCE. -/
def countItems : Nat → Bytes → Option Nat
  | 0, _ => none
  | fuel + 1, scan =>
      if scan = [] then some 0
      else
        match derTakeTl scan with
        | none => none
        | some (tag, len, hdr) =>
            if tag ≠ 0x06 ∧ tag ≠ 0x30 then none
            else (countItems fuel (scan.drop (hdr + len))).map (· + 1)

/-- `SEQUENCE { OID, SET OF AttributeValue }`, which needs a value. -/
def parseAttribute (inner : Bytes) : Option CsrAttrItem :=
  match derTakeTl inner with
  | none => none
  | some (tag, len, hdr) =>
      if tag ≠ 0x06 then none
      else
        let afterOid := inner.drop (hdr + len)
        if afterOid = [] then none
        else
          match derTakeTl afterOid with
          | none => none
          | some (setTag, setLen, setHdr) =>
              if setTag ≠ 0x31 ∨ setLen = 0 then none
              else some (.attribute ((inner.drop hdr).take len) ((afterOid.drop setHdr).take setLen))

/-- The second pass. -/
def parseItems : Nat → Bytes → CsrAttrs → Option CsrAttrs
  | 0, _, _ => none
  | fuel + 1, p, out =>
      if p = [] then some out
      else
        match derTakeTl p with
        | none => none
        | some (tag, len, hdr) =>
            let content := (p.drop hdr).take len
            match if tag = 0x06 then some (.bareOid content) else parseAttribute content with
            | none => none
            | some item =>
                parseItems fuel (p.drop (hdr + len))
                  (classify { out with items := out.items ++ [item] } item)

def estParseCsrAttrs (env : WolfCrypt σ) (der : Bytes) : Prog σ Rc CsrAttrs :=
  if der = [] then pure {}
  else do
    env.allocate der.length
    match derTakeTl der with
    | none => Prog.fail .errParse
    | some (tag, len, hdr) => do
        Prog.require (tag = 0x30) .errParse
        let body := (der.drop hdr).take len
        match countItems (body.length + 1) body with
        | none => Prog.fail .errParse
        | some n => do
            if n > 0 then env.allocate n
            match parseItems (body.length + 1) body {} with
            | none => Prog.fail .errParse
            | some attrs => pure attrs

/-! ## The policy of the server -/

/-- Whether the CSR carries an attribute of that type: `none` if it does not parse. -/
def hasAttrFrom (oid : Bytes) : Nat → Bytes → Option Bool
  | 0, _ => none
  | fuel + 1, attrs =>
      if attrs = [] then some false
      else
        match csrTakeTl attrs with
        | none => none
        | some (tag, len, hdr) =>
            if tag ≠ 0x30 then none
            else
              let one := (attrs.drop hdr).take len
              match csrTakeTl one with
              | none => none
              | some (oidTag, oidLen, oidHdr) =>
                  if oidTag ≠ 0x06 then none
                  else if (one.drop oidHdr).take oidLen = oid then some true
                  else hasAttrFrom oid fuel (attrs.drop (hdr + len))

/-- The content of the element at the front if it has that tag, and what follows the element. -/
def takeTagged (want : UInt8) (p : Bytes) : Option (Bytes × Bytes) :=
  match csrTakeTl p with
  | none => none
  | some (tag, len, hdr) =>
      if tag ≠ want then none else some ((p.drop hdr).take len, p.drop (hdr + len))

/-- `csr__has_attr_oid`; a request without attributes has none of them. -/
def csrHasAttrOid (csr oid : Bytes) : Option Bool :=
  match takeTagged 0x30 csr with
  | none => none
  | some (p, _) =>
      match takeTagged 0x30 p with
      | none => none
      | some (info, _) =>
          match takeTagged 0x02 info with
          | none => none
          | some (_, info) =>
              match takeTagged 0x30 info with
              | none => none
              | some (_, info) =>
                  match takeTagged 0x30 info with
                  | none => none
                  | some (_, info) =>
                      match takeTagged 0xA0 info with
                      | none => some false
                      | some (attrs, _) => hasAttrFrom oid (attrs.length + 1) attrs

/-- The first bare OID of the policy that the CSR lacks. -/
def missingOid (csr : Bytes) (items : List CsrAttrItem) : Option Bytes :=
  items.findSome? fun
    | .attribute _ _ => none
    | .bareOid oid => if csrHasAttrOid csr oid = some true then none else some oid

/-- The refusal of a CSR, with the OID that it lacks if a buffer of that size holds it. -/
def csrAttrsEnforce (env : WolfCrypt σ) (policy : Bytes) (csr : Bytes) (cap : Nat) :
    Prog σ (Rc × Bytes) Unit := fun w =>
  if policy = [] then some (.ok (), w)
  else
    match estParseCsrAttrs env policy w with
    | none => none
    | some (.error rc, w) => some (.error (rc, []), w)
    | some (.ok attrs, w) =>
        match missingOid csr attrs.items with
        | none => some (.ok (), w)
        | some oid => some (.error (.errProtocol, if oid.length ≤ cap then oid else []), w)

/-! ## Dotted decimal -/

/-- The arcs after the first two, as long as the buffer has 16 bytes to spare. -/
def dottedArcs (cap : Nat) : Bytes → Nat → Bytes → Bytes
  | [], _, text => text
  | b :: rest, n, text =>
      if text.length + 16 < cap then
        let n := (n * 128 + (b &&& 0x7F).toNat) % 2 ^ 64
        if b &&& 0x80 = 0 then dottedArcs cap rest 0 (text ++ ascii "." ++ decimal n)
        else dottedArcs cap rest n text
      else text

/-- The text of an OID, before the buffer of that size cuts it. -/
def oidToDotted (cap : Nat) : Bytes → Bytes
  | [] => []
  | b :: rest =>
      let first := if b < 80 then b.toNat / 40 else 2
      let second := if b < 80 then b.toNat % 40 else b.toNat - 80
      dottedArcs cap rest 0 (decimal first ++ ascii "." ++ decimal second)

end WolfCert.Est
