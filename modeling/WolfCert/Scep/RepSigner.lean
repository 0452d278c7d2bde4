import WolfCert.Scep.Element
import WolfCert.Scep.Message

/-!
# The signer of a reply

`wolfcert_scep_verify_rep_signer` walks a bundle of certificates. What it finds depends on the SEQUENCEs
at the front of the bundle and not on their order, nor on those that are no certificates.
-/

namespace WolfCert.Scep

open WolfCert.CLib

variable {σ : Type}

/-- wolfCrypt with memory to spare: what `wc_ParseCert` makes of a certificate depends on that alone, and
it makes nothing of no bytes. -/
structure Parsing (env : WolfCrypt σ) (certOf : CertKind → Bytes → Option DecodedCert) : Prop where
  granted : ∀ w n, (env.alloc w n).1 = true
  parsed : ∀ {kind der dc}, certOf kind der = some dc → ∀ w, (env.parseCert kind der w).1 = .ok dc
  refused : ∀ {kind der}, certOf kind der = none →
    ∀ w, ∃ e, e ≠ .memoryE ∧ (env.parseCert kind der w).1 = .error e
  nothing : ∀ kind, certOf kind [] = none

/-- The public key that a certificate parses to. -/
def certKey (certOf : CertKind → Bytes → Option DecodedCert) (der : Bytes) : Option Bytes :=
  (certOf .certType der).bind fun dc => if dc.publicKey = [] then none else some dc.publicKey

/-- A bundle: these SEQUENCEs, and then bytes that do not start with another one. -/
structure BundleParts (seqs : List Bytes) (rest bundle : Bytes) : Prop where
  sequences : ∀ seq ∈ seqs, ∃ content, IsElement 0x30 content seq
  shape : bundle = seqs.flatten ++ rest
  ends : ∀ content seq after, IsElement 0x30 content seq → rest ≠ seq ++ after

/-- The signer has the key of one of the SEQUENCEs. -/
def KeyAmong (certOf : CertKind → Bytes → Option DecodedCert) (signer : Bytes) (seqs : List Bytes) : Prop :=
  ∃ key, certKey certOf signer = some key ∧ ∃ seq ∈ seqs, certKey certOf seq = some key

/-! ## Bundles -/

theorem derSeqLen_sequence {content seq : Bytes} (sequence : IsElement 0x30 content seq) (after : Bytes) :
    derSeqLen (seq ++ after) = seq.length := by
  obtain ⟨hdr, read, size, -⟩ := derReadTlv_element sequence after
  rw [derSeqLen, read, size]
  rfl

theorem derSeqLen_cases (p : Bytes) :
    (derSeqLen p = 0 ∧ ∀ content seq after, IsElement 0x30 content seq → p ≠ seq ++ after) ∨
    ∃ content seq after, IsElement 0x30 content seq ∧ p = seq ++ after := by
  by_cases sequence : ∃ content seq after, IsElement 0x30 content seq ∧ p = seq ++ after
  · exact .inr sequence
  · refine .inl ⟨?_, fun content seq after element same => sequence ⟨content, seq, after, element, same⟩⟩
    cases read : derReadTlv p with
    | none => rw [derSeqLen, read]
    | some header =>
        obtain ⟨hdr, tag, clen⟩ := header
        obtain ⟨bytes, rest, element, shape, -⟩ := derReadTlv_sound read
        rw [derSeqLen, read]
        refine if_pos fun same => sequence ?_
        subst same
        exact ⟨_, bytes, rest, element, shape⟩

theorem IsElement.filled {tag : UInt8} {content bytes : Bytes} (element : IsElement tag content bytes) :
    bytes ≠ [] :=
  List.length_pos_iff.mp element.length_pos

theorem BundleParts.tail {seq rest bundle : Bytes} {seqs : List Bytes}
    (parts : BundleParts (seq :: seqs) rest bundle) : BundleParts seqs rest (seqs.flatten ++ rest) :=
  ⟨fun other member => parts.sequences other (List.mem_cons_of_mem _ member), rfl, parts.ends⟩

/-- Every input is a bundle. -/
theorem bundleParts_exists (bundle : Bytes) : ∃ seqs rest, BundleParts seqs rest bundle := by
  induction size : bundle.length using Nat.strongRecOn generalizing bundle with
  | ind n ih =>
      rcases derSeqLen_cases bundle with ⟨-, ends⟩ | ⟨content, seq, after, sequence, rfl⟩
      · exact ⟨[], bundle, by simp, rfl, ends⟩
      · have positive := sequence.length_pos
        rw [List.length_append] at size
        obtain ⟨seqs, rest, parts⟩ := ih after.length (by omega) after rfl
        refine ⟨seq :: seqs, rest, fun other member => ?_, ?_, parts.ends⟩
        · rcases List.mem_cons.mp member with rfl | member
          · exact ⟨content, sequence⟩
          · exact parts.sequences other member
        · rw [List.flatten_cons, List.append_assoc, ← parts.shape]

/-- And one in one way only. -/
theorem BundleParts.unique {seqs seqs' : List Bytes} {rest rest' bundle : Bytes}
    (parts : BundleParts seqs rest bundle) (parts' : BundleParts seqs' rest' bundle) :
    seqs = seqs' ∧ rest = rest' := by
  induction seqs generalizing seqs' bundle with
  | nil =>
      cases seqs' with
      | nil => exact ⟨rfl, by simpa using parts.shape.symm.trans parts'.shape⟩
      | cons seq seqs' =>
          obtain ⟨content, sequence⟩ := parts'.sequences seq List.mem_cons_self
          have same := parts.shape.symm.trans parts'.shape
          rw [List.flatten_cons, List.append_assoc] at same
          exact absurd same (parts.ends content seq _ sequence)
  | cons seq seqs ih =>
      obtain ⟨content, sequence⟩ := parts.sequences seq List.mem_cons_self
      cases seqs' with
      | nil =>
          have same := parts'.shape.symm.trans parts.shape
          rw [List.flatten_cons, List.append_assoc] at same
          exact absurd same (parts'.ends content seq _ sequence)
      | cons seq' seqs' =>
          obtain ⟨content', sequence'⟩ := parts'.sequences seq' List.mem_cons_self
          have same := parts.shape.symm.trans parts'.shape
          rw [List.flatten_cons, List.append_assoc, List.flatten_cons, List.append_assoc] at same
          obtain ⟨-, -, rfl, after⟩ := sequence.front_unique sequence' same
          obtain ⟨rfl, rfl⟩ := ih (after ▸ parts.tail) parts'.tail
          exact ⟨rfl, rfl⟩

/-! ## The walk -/

/-- A check that ends OK if this holds, and with `WOLFCERT_ERR_AUTH` otherwise. -/
def Decides (p : Prog σ Rc Unit) (holds : Prop) : Prop :=
  ∀ w, ∃ w', (holds ∧ p w = some (.ok (), w')) ∨ (¬holds ∧ p w = some (.error .errAuth, w'))

section Walk

variable {env : WolfCrypt σ} {certOf : CertKind → Bytes → Option DecodedCert}

theorem Parsing.called (parsing : Parsing env certOf) {kind : CertKind} {der : Bytes} {dc : DecodedCert}
    (found : certOf kind der = some dc) (w : σ) :
    (Prog.call (env.parseCert kind der) : Prog σ Rc _) w =
      some (.ok (.ok dc), (env.parseCert kind der w).2) := by
  rw [Prog.call, parsing.parsed found w]

theorem extractSpki_parsing (parsing : Parsing env certOf) (der : Bytes) (w : σ) :
    ∃ w', extractSpki env .certType der w =
      some ((certKey certOf der).elim (.error .errParse) .ok, w') := by
  have opened := WolfCrypt.allocate_granted parsing.granted 1 w
  let v := (env.alloc w 1).2
  let u := (env.parseCert .certType der v).2
  cases found : certOf .certType der with
  | none =>
      obtain ⟨e, noMemory, failed⟩ := parsing.refused found v
      have called : (Prog.callMap (fun e => if e = .memoryE then .errMemory else .errParse)
          (env.parseCert .certType der) : Prog σ Rc DecodedCert) v = some (.error .errParse, u) := by
        rw [Prog.callMap, failed, Prog.mapError_failed, if_neg noMemory]
      refine ⟨u, ?_⟩
      rw [extractSpki, Prog.bind_of_ok opened, Prog.bind_of_error called, certKey, found]
      rfl
  | some dc =>
      have parsed := parsing.parsed found v
      have called : (Prog.callMap (fun e => if e = .memoryE then .errMemory else .errParse)
          (env.parseCert .certType der) : Prog σ Rc DecodedCert) v = some (.ok dc, u) := by
        rw [Prog.callMap, parsed, Prog.mapError_returned]
      rw [extractSpki, Prog.bind_of_ok opened, Prog.bind_of_ok called]
      by_cases empty : dc.publicKey = []
      · refine ⟨u, ?_⟩
        rw [Prog.bind_of_error (Prog.require_of_not (by simpa using empty) _ _), certKey, found]
        simp [empty]
      · refine ⟨(env.alloc u dc.publicKey.length).2, ?_⟩
        rw [Prog.bind_of_ok (Prog.require_of empty _ _),
          Prog.bind_of_ok (WolfCrypt.allocate_granted parsing.granted _ _), certKey, found]
        simp [empty]

/-- Looking at one SEQUENCE of the bundle. -/
theorem matchBundle_step {spki seq after : Bytes} {content : Bytes} (parsing : Parsing env certOf)
    (sequence : IsElement 0x30 content seq) (fuel : Nat) (w : σ) :
    ∃ w', matchBundle env spki (fuel + 1) (seq ++ after) w =
      if certKey certOf seq = some spki then some (.ok (), w') else matchBundle env spki fuel after w' := by
  obtain ⟨v, extracted⟩ := extractSpki_parsing parsing seq w
  have filled : seq ++ after ≠ [] := by simp [sequence.filled]
  have positive : seq.length ≠ 0 := by simp [sequence.filled]
  refine ⟨v, ?_⟩
  simp only [matchBundle, derSeqLen_sequence sequence, if_neg filled, if_neg positive, List.take_left,
    List.drop_left]
  rw [Prog.bind_of_ok (Prog.attempt_ok_iff.mpr extracted)]
  cases found : certKey certOf seq with
  | none => rfl
  | some key =>
      by_cases same : key = spki
      · subst same
        simp
      · simp [same]

theorem matchBundle_decides (parsing : Parsing env certOf) {seqs : List Bytes} {rest bundle : Bytes}
    (parts : BundleParts seqs rest bundle) (spki : Bytes) {fuel : Nat} (enough : bundle.length ≤ fuel) :
    Decides (matchBundle env spki fuel bundle) (∃ seq ∈ seqs, certKey certOf seq = some spki) := by
  induction seqs generalizing bundle fuel with
  | nil =>
      intro w
      refine ⟨w, .inr ⟨by simp, ?_⟩⟩
      have shape : bundle = rest := parts.shape
      subst shape
      have none : derSeqLen bundle = 0 := by
        rcases derSeqLen_cases bundle with ⟨none, -⟩ | ⟨content, seq, after, sequence, same⟩
        · exact none
        · exact absurd same (parts.ends content seq after sequence)
      cases fuel with
      | zero => rfl
      | succ fuel => simp [matchBundle, none]
  | cons seq seqs ih =>
      intro w
      obtain ⟨content, sequence⟩ := parts.sequences seq List.mem_cons_self
      have positive := sequence.length_pos
      have shape : bundle = seq ++ (seqs.flatten ++ rest) := by
        rw [parts.shape, List.flatten_cons, List.append_assoc]
      subst shape
      rw [List.length_append] at enough
      cases fuel with
      | zero => omega
      | succ fuel =>
          obtain ⟨v, stepped⟩ := matchBundle_step parsing sequence fuel w
          rw [stepped]
          by_cases same : certKey certOf seq = some spki
          · exact ⟨v, .inl ⟨⟨seq, List.mem_cons_self, same⟩, if_pos same⟩⟩
          · rw [if_neg same]
            have fewer : (seqs.flatten ++ rest).length ≤ fuel := by omega
            obtain ⟨w', outcome⟩ := ih parts.tail fewer v
            refine ⟨w', ?_⟩
            simpa [same] using outcome

theorem verifyRepSigner_decides (parsing : Parsing env certOf) {seqs : List Bytes} {rest bundle : Bytes}
    (parts : BundleParts seqs rest bundle) (signer : Bytes) :
    Decides (verifyRepSigner env signer bundle) (KeyAmong certOf signer seqs) := by
  intro w
  obtain ⟨v, extracted⟩ := extractSpki_parsing parsing signer w
  by_cases given : signer ≠ [] ∧ bundle ≠ []
  · rw [verifyRepSigner, Prog.bind_of_ok (Prog.require_of given _ _),
      Prog.bind_of_ok (Prog.attempt_ok_iff.mpr extracted)]
    cases found : certKey certOf signer with
    | none => exact ⟨v, .inr ⟨by simp [KeyAmong, found], rfl⟩⟩
    | some key =>
        obtain ⟨w', outcome⟩ := matchBundle_decides parsing parts key (Nat.le_refl _) v
        refine ⟨w', ?_⟩
        simpa [KeyAmong, found] using outcome
  · have unknown : ¬KeyAmong certOf signer seqs := by
      rintro ⟨key, known, seq, member, -⟩
      rw [not_and_or, not_not, not_not] at given
      rcases given with rfl | rfl
      · rw [certKey, parsing.nothing] at known
        cases known
      · obtain ⟨content, sequence⟩ := parts.sequences seq member
        have empty := List.append_eq_nil_iff.mp parts.shape.symm
        exact sequence.filled (List.flatten_eq_nil_iff.mp empty.1 seq member)
    refine ⟨w, .inr ⟨unknown, ?_⟩⟩
    rw [verifyRepSigner, Prog.bind_of_error (Prog.require_of_not given _ _)]

theorem KeyAmong.mono {signer : Bytes} {seqs seqs' : List Bytes} (among : KeyAmong certOf signer seqs)
    (kept : ∀ cert, certOf .certType cert ≠ none → cert ∈ seqs → cert ∈ seqs') :
    KeyAmong certOf signer seqs' := by
  obtain ⟨key, own, seq, member, same⟩ := among
  refine ⟨key, own, seq, kept seq ?_ member, same⟩
  intro unparsed
  rw [certKey, unparsed] at same
  cases same

theorem Decides.result_eq {p q : Prog σ Rc Unit} {holds holds' : Prop} (one : Decides p holds)
    (other : Decides q holds') (same : holds ↔ holds') (w v : σ) :
    (p w).map Prod.fst = (q v).map Prod.fst := by
  obtain ⟨w', ⟨yes, ran⟩ | ⟨no, ran⟩⟩ := one w
  · obtain ⟨v', ⟨-, ran'⟩ | ⟨no, -⟩⟩ := other v
    · rw [ran, ran']
      rfl
    · exact absurd (same.mp yes) no
  · obtain ⟨v', ⟨yes, -⟩ | ⟨-, ran'⟩⟩ := other v
    · exact absurd (same.mpr yes) no
    · rw [ran, ran']
      rfl

/-- The check of a reply's signer, for every bundle: which SEQUENCEs it starts with is certain, the check
ends OK if the signer has the key of one of them and with `WOLFCERT_ERR_AUTH` if not, and two bundles that
start with the same certificates, in any order and any number, get the same answer. -/
theorem rep_signer_lookup (parsing : Parsing env certOf) (signer bundle : Bytes) :
    ∃ seqs rest, (∀ seqs' rest', BundleParts seqs' rest' bundle ↔ seqs' = seqs ∧ rest' = rest) ∧
      Decides (verifyRepSigner env signer bundle) (KeyAmong certOf signer seqs) ∧
      ∀ seqs' rest' bundle', BundleParts seqs' rest' bundle' →
        (∀ cert, certOf .certType cert ≠ none → (cert ∈ seqs' ↔ cert ∈ seqs)) →
        ∀ w v, (verifyRepSigner env signer bundle' w).map Prod.fst =
          (verifyRepSigner env signer bundle v).map Prod.fst := by
  obtain ⟨seqs, rest, parts⟩ := bundleParts_exists bundle
  have decided := verifyRepSigner_decides parsing parts signer
  refine ⟨seqs, rest, fun seqs' rest' => ⟨fun parts' => parts'.unique parts, ?_⟩, decided, ?_⟩
  · rintro ⟨rfl, rfl⟩
    exact parts
  · intro seqs' rest' bundle' parts' same w v
    have equal : KeyAmong certOf signer seqs' ↔ KeyAmong certOf signer seqs :=
      ⟨fun among => among.mono fun cert parses => (same cert parses).mp,
        fun among => among.mono fun cert parses => (same cert parses).mpr⟩
    exact (verifyRepSigner_decides parsing parts' signer).result_eq decided equal w v

end Walk

/-! A parser whose certificates have their last byte as a key, those that end in zero being none. -/

def keyedCertOf (_ : CertKind) (der : Bytes) : Option DecodedCert :=
  if der.getLastD 0 = 0 then none else some { exampleCert with publicKey := [der.getLastD 0] }

def keyedParser : WolfCrypt Http.Wire :=
  { exampleCrypt ⟨[], [], [], []⟩ with
    alloc := fun w _ => (true, w)
    parseCert := fun kind der w => ((keyedCertOf kind der).elim (.error .asnParseE) .ok, w) }

theorem keyedParser_parsing : Parsing keyedParser keyedCertOf where
  granted _ _ := rfl
  parsed found w := by simp [keyedParser, found]
  refused found w := ⟨.asnParseE, by decide, by simp [keyedParser, found]⟩
  nothing _ := rfl

theorem rep_signer_lookup_third :
    KeyAmong keyedCertOf [9] [[0x30, 1, 7], [0x30, 1, 0], [0x30, 1, 9]] ∧
      Decides (verifyRepSigner keyedParser [9] [0x30, 1, 7, 0x30, 1, 0, 0x30, 1, 9, 5])
        (KeyAmong keyedCertOf [9] [[0x30, 1, 7], [0x30, 1, 0], [0x30, 1, 9]]) := by
  have parts : BundleParts [[0x30, 1, 7], [0x30, 1, 0], [0x30, 1, 9]] [5]
      [0x30, 1, 7, 0x30, 1, 0, 0x30, 1, 9, 5] := by
    have sequence : ∀ b : UInt8, IsElement 0x30 [b] [0x30, 1, b] := fun b =>
      ⟨[1], LengthOctets.short (n := 1) (by decide), rfl⟩
    refine ⟨?_, rfl, ?_⟩
    · simp only [List.mem_cons, List.not_mem_nil, or_false, forall_eq_or_imp, forall_eq]
      exact ⟨⟨_, sequence 7⟩, ⟨_, sequence 0⟩, ⟨_, sequence 9⟩⟩
    · rintro content seq after ⟨len, -, rfl⟩ same
      cases same
  obtain ⟨seqs, rest, only, decided, -⟩ :=
    rep_signer_lookup keyedParser_parsing [9] [0x30, 1, 7, 0x30, 1, 0, 0x30, 1, 9, 5]
  obtain ⟨rfl, -⟩ := (only _ _).mp parts
  exact ⟨⟨[9], by decide, [0x30, 1, 9], by decide, by decide⟩, decided⟩

end WolfCert.Scep
