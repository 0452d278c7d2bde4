import WolfCert.Scep.Message

/-!
# The recipient of a request

`wolfcert_scep_select_ra_cert` and `wolfcert_scep_verify_ca_fingerprint`: which certificate of a
GetCACert bundle the envelope is for, and whether a certificate is the one a fingerprint names.
-/

namespace WolfCert.Scep

open WolfCert.CLib

/-- The bits of `extKeyUsage` the selection looks at. -/
structure KeyUsage where
  keyEncipher : Bool
  digitalSig : Bool
  dataEncipher : Bool
deriving DecidableEq, Repr

/-- What `ra_candidate_parse` reads of a `DecodedCert`; no key usage is an absent extension. -/
structure RaFields where
  publicKey : Bytes
  subjectHash : Bytes
  issuerHash : Bytes
  isCa : Bool
  isRsa : Bool
  keyUsage : Option KeyUsage
deriving DecidableEq, Repr

/-- wolfCrypt as far as the choice of a recipient needs more of it. -/
structure RaCrypto (σ : Type) extends WolfCrypt σ where
  parseCandidate : Bytes → σ → Except WcErr RaFields × σ
  shaHash : Bytes → σ → Except WcErr Bytes × σ
  sha512Hash : Bytes → σ → Except WcErr Bytes × σ
  hasSha : Bool
  maxPkcs7Certs : Nat

/-- A certificate of the bundle and where in it it starts. -/
structure RaCandidate where
  offset : Nat
  der : Bytes
  subject : Bytes
  issuer : Bytes
  key : Bytes
  rank : Int
  parsed : Bool
  isCa : Bool
  selfIssued : Bool
  keyEncipher : Bool
deriving DecidableEq, Repr

def candidateRank (fields : RaFields) : Int :=
  if fields.isRsa = false then -1
  else if fields.isCa then 0
  else
    match fields.keyUsage with
    | none => 2
    | some usage =>
        if usage.keyEncipher then if usage.digitalSig then 3 else 4
        else if usage.dataEncipher then 1
        else -1

def unparsedCandidate (offset : Nat) (der : Bytes) : RaCandidate where
  offset := offset
  der := der
  subject := []
  issuer := []
  key := []
  rank := -1
  parsed := false
  isCa := false
  selfIssued := false
  keyEncipher := false

def parsedCandidate (offset : Nat) (der : Bytes) (fields : RaFields) (key : Bytes) : RaCandidate where
  offset := offset
  der := der
  subject := fields.subjectHash
  issuer := fields.issuerHash
  key := key
  rank := candidateRank fields
  parsed := true
  isCa := fields.isCa
  selfIssued := fields.subjectHash = fields.issuerHash
  keyEncipher := (fields.keyUsage.map (·.keyEncipher)).getD false

section Candidates

variable {σ : Type} (env : RaCrypto σ)

/-- The fields of a certificate and the digest of its key. -/
def candidateFields (der : Bytes) : Prog σ WcErr (RaFields × Bytes) := do
  let fields ← Prog.callMap id (env.parseCandidate der)
  let key ← Prog.callMap id (env.sha256Hash fields.publicKey)
  pure (fields, key)

/-- A certificate that does not parse stays a candidate, one that nothing can choose. -/
def raCandidateParse (offset : Nat) (der : Bytes) : Prog σ Rc RaCandidate := do
  env.allocate 1
  match ← Prog.attempt (candidateFields env der) with
  | .error .memoryE => Prog.fail .errMemory
  | .error _ => pure (unparsedCandidate offset der)
  | .ok (fields, key) => pure (parsedCandidate offset der fields key)

/-- The certificates of a bundle with their offsets, up to what is no DER SEQUENCE. -/
def bundlePieces : Nat → Nat → Bytes → List (Nat × Bytes)
  | 0, _, _ => []
  | fuel + 1, offset, bundle =>
      let clen := derSeqLen bundle
      if clen = 0 then []
      else (offset, bundle.take clen) :: bundlePieces fuel (offset + clen) (bundle.drop clen)

def parseCandidates : List (Nat × Bytes) → Prog σ Rc (List RaCandidate)
  | [] => pure []
  | (offset, der) :: rest => do
      let c ← raCandidateParse env offset der
      let others ← parseCandidates rest
      pure (c :: others)

end Candidates

section Choice

/-- Whether another candidate is a subordinate CA under the name of the one at `i`. -/
def raCandidateIssuedCa (all : List RaCandidate) (i : Nat) (c : RaCandidate) : Bool :=
  all.zipIdx.any fun (other, j) =>
    j ≠ i && other.parsed && other.isCa && !other.selfIssued && other.issuer = c.subject

def bestRank (all : List RaCandidate) : Int := all.foldl (fun best c => max best c.rank) (-1)

/-- The candidates of the best rank, and of the CAs only those that issued no other. -/
def lowestCandidates (all : List RaCandidate) : List RaCandidate :=
  let best := bestRank all
  (all.zipIdx.filter fun (c, i) =>
    best ≥ 0 && c.rank = best && (best > 0 || !raCandidateIssuedCa all i c)).map Prod.fst

/-- A self-issued CA gives way to a subordinate one. -/
def subordinateCandidates (all : List RaCandidate) : List RaCandidate :=
  let kept := lowestCandidates all
  let anySub := bestRank all = 0 && kept.any fun c => !c.selfIssued
  kept.filter fun c => !(anySub && c.selfIssued)

/-- Of the CAs one that may encipher keys is preferred. -/
def finalCandidates (all : List RaCandidate) : List RaCandidate :=
  let kept := subordinateCandidates all
  let anyKe := kept.any fun c => c.keyEncipher
  kept.filter fun c => !(bestRank all = 0 && anyKe && !c.keyEncipher)

/-- Several candidates are one recipient only under one key. -/
def pickCandidate (all : List RaCandidate) : Except Rc RaCandidate :=
  match finalCandidates all with
  | [] => .error .errUnsupported
  | pick :: others => if others.all fun c => pick.key = c.key then .ok pick else .error .errProtocol

theorem pickCandidate_mem {all : List RaCandidate} {pick : RaCandidate}
    (picked : pickCandidate all = .ok pick) : pick ∈ all := by
  have final : pick ∈ finalCandidates all := by
    unfold pickCandidate at picked
    split at picked
    · cases picked
    · rename_i first others same
      split at picked
      · cases picked
        rw [same]
        exact List.mem_cons_self
      · cases picked
  have lowest : pick ∈ lowestCandidates all := List.mem_of_mem_filter (List.mem_of_mem_filter final)
  obtain ⟨⟨c, i⟩, kept, rfl⟩ := List.mem_map.mp lowest
  exact (List.mem_zipIdx' (List.mem_of_mem_filter kept)).2 ▸ List.getElem_mem _

end Choice

variable {σ : Type} (env : RaCrypto σ)

/-- The recipient and the offset it starts at. -/
def selectRaCert (bundle : Bytes) : Prog σ Rc (Nat × Bytes) := do
  Prog.require (bundle ≠ []) .errBadArg
  let pieces := bundlePieces bundle.length 0 bundle
  Prog.require (pieces ≠ []) .errParse
  Prog.require (pieces.length ≤ env.maxPkcs7Certs) .errBadArg
  env.allocate pieces.length
  let all ← parseCandidates env pieces
  match pickCandidate all with
  | .error rc => Prog.fail rc
  | .ok pick => pure (pick.offset, pick.der)

theorem raCandidateParse_place {env : RaCrypto σ} {offset : Nat} {der : Bytes} {c : RaCandidate}
    {w w' : σ} (run : raCandidateParse env offset der w = some (.ok c, w')) :
    (c.offset, c.der) = (offset, der) := by
  simp only [raCandidateParse, Prog.bind_ok_iff, Prog.attempt_ok_iff] at run
  obtain ⟨_, _, -, found, v, -, run⟩ := run
  split at run
  · cases run
  · cases run
    rfl
  · cases run
    rfl

/-- Each candidate stands for one piece of the bundle. -/
theorem parseCandidates_places {env : RaCrypto σ} {pieces : List (Nat × Bytes)}
    {all : List RaCandidate} {w w' : σ} (run : parseCandidates env pieces w = some (.ok all, w')) :
    all.map (fun c => (c.offset, c.der)) = pieces := by
  induction pieces generalizing all w with
  | nil =>
      cases run
      rfl
  | cons piece rest ih =>
      simp only [parseCandidates, Prog.bind_ok_iff] at run
      obtain ⟨c, v, parsed, others, v', later, ended⟩ := run
      cases ended
      rw [List.map_cons, raCandidateParse_place parsed, ih later]

/-- The recipient is one of the certificates the bundle is made of. -/
theorem selectRaCert_mem {env : RaCrypto σ} {bundle : Bytes} {picked : Nat × Bytes} {w w' : σ}
    (run : selectRaCert env bundle w = some (.ok picked, w')) :
    picked ∈ bundlePieces bundle.length 0 bundle := by
  simp only [selectRaCert, Prog.bind_ok_iff] at run
  obtain ⟨_, _, -, _, _, -, _, _, -, _, _, -, all, v, parsed, run⟩ := run
  cases chosen : pickCandidate all with
  | error rc =>
      rw [chosen] at run
      cases run
  | ok pick =>
      rw [chosen] at run
      cases run
      rw [← parseCandidates_places parsed]
      exact List.mem_map_of_mem (pickCandidate_mem chosen)

/-- An element reads the same when what follows it changes. -/
theorem derReadTlv_take {input : Bytes} {hdr clen : Nat} {tag : UInt8}
    (read : derReadTlv input = some (hdr, tag, clen)) (rest : Bytes) :
    derReadTlv (input.take (hdr + clen) ++ rest) = some (hdr, tag, clen) := by
  unfold derReadTlv at read
  split at read
  · rename_i tag' first tail
    dsimp only at read
    split at read
    · rename_i short
      split at read
      · cases read
      · rename_i room
        cases read
        rw [show 2 + first.toNat = first.toNat + 1 + 1 by omega, List.take_succ_cons,
          List.take_succ_cons, List.cons_append, List.cons_append, derReadTlv, if_pos short,
          if_neg (by rw [List.length_append, List.length_take]; omega)]
    · rename_i long
      split at read
      · cases read
      · rename_i counted
        split at read
        · cases read
        · rename_i room
          simp only [Option.some.injEq, Prod.mk.injEq] at read
          obtain ⟨rfl, rfl, same⟩ := read
          rw [not_or, not_or] at counted
          have inside : (first &&& 0x7F).toNat + clen ≤ tail.length := by omega
          have digits : (tail.take ((first &&& 0x7F).toNat + clen) ++ rest).take (first &&& 0x7F).toNat =
              tail.take (first &&& 0x7F).toNat := by
            rw [List.take_append_of_le_length (by rw [List.length_take]; omega), List.take_take,
              Nat.min_eq_left (by omega)]
          have size : (tail.take ((first &&& 0x7F).toNat + clen) ++ rest).length =
              (first &&& 0x7F).toNat + clen + rest.length := by
            rw [List.length_append, List.length_take, Nat.min_eq_left inside]
          rw [show 2 + (first &&& 0x7F).toNat + clen = (first &&& 0x7F).toNat + clen + 1 + 1 by omega,
            List.take_succ_cons, List.take_succ_cons, List.cons_append, List.cons_append, derReadTlv,
            if_neg long]
          dsimp only
          rw [digits, same, size, if_neg (by omega), if_neg (by omega)]
  · cases read

/-- The bytes of one certificate: in front of anything, the reader finds them whole or nothing. -/
def IsPiece (cert : Bytes) : Prop :=
  cert ≠ [] ∧ ∀ rest, derSeqLen (cert ++ rest) = 0 ∨ derSeqLen (cert ++ rest) = cert.length

/-- What the reader finds in certificates laid one after another are some of these; only the first of
them is at the start. -/
theorem bundlePieces_flatten {certs : List Bytes} (pieces : ∀ cert ∈ certs, IsPiece cert)
    {fuel offset start : Nat} {der : Bytes}
    (found : (offset, der) ∈ bundlePieces fuel start certs.flatten) :
    (offset = start ∧ certs.head? = some der) ∨ (start < offset ∧ der ∈ certs.tail) := by
  induction fuel generalizing certs start with
  | zero => cases found
  | succ fuel ih =>
      rw [bundlePieces] at found
      split at found
      · cases found
      · rename_i nonzero
        cases certs with
        | nil => exact absurd rfl nonzero
        | cons cert certs =>
            obtain ⟨filled, read⟩ := pieces cert List.mem_cons_self
            rw [List.flatten_cons] at found nonzero
            have whole : derSeqLen (cert ++ certs.flatten) = cert.length :=
              (read certs.flatten).resolve_left nonzero
            rw [whole, List.take_left, List.drop_left] at found
            rcases List.mem_cons.mp found with first | later
            · cases first
              exact .inl ⟨rfl, rfl⟩
            · have positive : 0 < cert.length := List.length_pos_of_ne_nil filled
              have inside := ih (fun c member => pieces c (List.mem_cons_of_mem _ member)) later
              refine .inr ?_
              rcases inside with ⟨rfl, head⟩ | ⟨beyond, member⟩
              · exact ⟨by omega, List.mem_of_mem_head? (Option.mem_def.mpr head)⟩
              · exact ⟨by omega, List.mem_of_mem_tail member⟩

/-- `WolfCertScepFpAlg` -/
inductive FpAlg where
  | auto
  | sha256
  | sha1
  | sha512
deriving DecidableEq, Repr

/-- `auto` takes the digest from the length of the fingerprint. -/
def resolveFpAlg (alg : FpAlg) (expected : Bytes) : Option FpAlg :=
  if alg = .auto then
    if expected.length = 20 then some .sha1
    else if expected.length = 32 then some .sha256
    else if expected.length = 64 then some .sha512
    else none
  else some alg

def fpDigest (alg : FpAlg) (cert : Bytes) : Prog σ Rc (Nat × Bytes) :=
  match alg with
  | .sha256 => do
      let digest ← Prog.callMap mapWcErr (env.sha256Hash cert)
      pure (32, digest)
  | .sha1 => do
      Prog.require (env.hasSha = true) .errUnsupported
      let digest ← Prog.callMap mapWcErr (env.shaHash cert)
      pure (20, digest)
  | .sha512 => do
      Prog.require (env.hasSha512 = true) .errUnsupported
      let digest ← Prog.callMap mapWcErr (env.sha512Hash cert)
      pure (64, digest)
  | .auto => Prog.fail .errUnsupported

def verifyCaFingerprint (cert expected : Bytes) (alg : FpAlg) : Prog σ Rc Unit := do
  Prog.require (cert ≠ [] ∧ expected ≠ []) .errBadArg
  match resolveFpAlg alg expected with
  | none => Prog.fail .errBadArg
  | some alg => do
      let (size, digest) ← fpDigest env alg cert
      Prog.require (expected.length = size) .errBadArg
      Prog.require (expected = digest) .errAuth

/-- Each hash the library computes is the digest of its input. -/
structure DigestSound (env : RaCrypto σ) (digest : FpAlg → Bytes → Bytes) : Prop where
  sha256 : ∀ input w out w', env.sha256Hash input w = (.ok out, w') → out = digest .sha256 input
  sha1 : ∀ input w out w', env.shaHash input w = (.ok out, w') → out = digest .sha1 input
  sha512 : ∀ input w out w', env.sha512Hash input w = (.ok out, w') → out = digest .sha512 input

theorem fpDigest_sound {env : RaCrypto σ} {digest : FpAlg → Bytes → Bytes}
    (sound : DigestSound env digest) {alg : FpAlg} {cert out : Bytes} {size : Nat} {w w' : σ}
    (run : fpDigest env alg cert w = some (.ok (size, out), w')) : out = digest alg cert := by
  cases alg with
  | auto => cases run
  | sha256 =>
      simp only [fpDigest, Prog.bind_ok_iff, Prog.callMap_ok_iff] at run
      obtain ⟨found, v, hashed, ended⟩ := run
      cases ended
      exact sound.sha256 _ _ _ _ hashed
  | sha1 =>
      simp only [fpDigest, Prog.bind_ok_iff, Prog.callMap_ok_iff] at run
      obtain ⟨_, _, -, found, v, hashed, ended⟩ := run
      cases ended
      exact sound.sha1 _ _ _ _ hashed
  | sha512 =>
      simp only [fpDigest, Prog.bind_ok_iff, Prog.callMap_ok_iff] at run
      obtain ⟨_, _, -, found, v, hashed, ended⟩ := run
      cases ended
      exact sound.sha512 _ _ _ _ hashed

/-- A certificate that passes has the digest the fingerprint gives. -/
theorem verifyCaFingerprint_sound {env : RaCrypto σ} {digest : FpAlg → Bytes → Bytes}
    (sound : DigestSound env digest) {cert expected : Bytes} {alg : FpAlg} {w w' : σ}
    (run : verifyCaFingerprint env cert expected alg w = some (.ok (), w')) :
    ∃ resolved, resolveFpAlg alg expected = some resolved ∧ digest resolved cert = expected := by
  simp only [verifyCaFingerprint, Prog.bind_ok_iff] at run
  obtain ⟨_, _, -, run⟩ := run
  cases known : resolveFpAlg alg expected with
  | none =>
      rw [known] at run
      cases run
  | some resolved =>
      simp only [known, Prog.bind_ok_iff, Prog.require_ok_iff] at run
      obtain ⟨⟨size, out⟩, v, hashed, _, _, -, same, -⟩ := run
      exact ⟨resolved, rfl, (fpDigest_sound sound hashed).symm.trans same.symm⟩

end WolfCert.Scep
