import WolfCert.Scep.SelectRa
import Mathlib.Data.List.Forall2

/-!
# The certificates a request trusts

`scep_ca_set_from_der` and `scep_ca_set_pick_ra` of the command line client narrow a GetCACert
response to what the fingerprints of the user name. The server chooses every byte of the response.
-/

namespace WolfCert.Cli

open WolfCert.CLib WolfCert.Scep

/-- wolfSSL as far as the client calls it by itself. `getLength` is `GetLength` from index 1: where the
content starts, and how long it is. A certificate manager holds the one CA it was loaded with. -/
structure CliCrypto (σ : Type) extends RaCrypto σ where
  getLength : Bytes → Option (Nat × Nat)
  certManagerNew : σ → Bool × σ
  loadCaBuffer : Bytes → σ → Bool × σ
  verifyBuffer : Bytes → Bytes → σ → Bool × σ

/-- A fingerprint; no digest is none given. -/
structure FpPin where
  digest : Bytes
  alg : FpAlg
  fits : digest.length ≤ 64
deriving DecidableEq, Repr

structure CaPin where
  ca : FpPin
  ra : List FpPin
  fits : ra.length ≤ 4
deriving DecidableEq, Repr

/-- The recipient is the pointer into the bundle and what it points at. -/
structure ScepCaSet where
  bundle : Bytes
  ra : Option (Nat × Bytes)
  caIsRa : Bool
deriving DecidableEq, Repr

/-- A code, and what was printed before it was returned. -/
structure Failure where
  rc : Rc
  printed : Bytes
deriving DecidableEq, Repr

def complaint (rc : Rc) (who : Bytes) (text : String) : Failure := ⟨rc, who ++ ascii text⟩

variable {σ : Type} (env : CliCrypto σ)

/-- The length of the DER certificate at the front, or zero. -/
def derCertLen (p : Bytes) : Nat :=
  if p.length < 2 ∨ charAt p ≠ 0x30 then 0
  else
    match env.getLength p with
    | none => 0
    | some (idx, len) => idx + len

/-- The certificates of a response, up to where none follows. -/
def servedCerts : Nat → Bytes → List Bytes
  | 0, _ => []
  | fuel + 1, der =>
      if derCertLen env der = 0 then []
      else der.take (derCertLen env der) :: servedCerts fuel (der.drop (derCertLen env der))

def certSignedBy (cert issuer : Bytes) : Prog σ Failure Bool := do
  let created ← Prog.call env.certManagerNew
  if created = false then pure false
  else
    let loaded ← Prog.call (env.loadCaBuffer issuer)
    if loaded = false then pure false
    else Prog.call (env.verifyBuffer issuer cert)

/-- `none` when the certificate does not parse. -/
def certIsCa (cert : Bytes) : Prog σ Failure (Option Bool) := do
  match ← Prog.attempt (do env.allocate 1; Prog.callMap mapWcErr (env.parseCert .certType cert)) with
  | .error _ => pure none
  | .ok dc => pure (some dc.isCa)

def fpMatches (pin : FpPin) (cert : Bytes) : Prog σ Failure Bool := do
  match ← Prog.attempt (verifyCaFingerprint env.toRaCrypto cert pin.digest pin.alg) with
  | .error _ => pure false
  | .ok () => pure true

/-- Which of the pins a certificate matches. -/
def raPinned (cert : Bytes) : List FpPin → Prog σ Failure (List Bool)
  | [] => pure []
  | pin :: pins => do
      let matched ← fpMatches env pin cert
      let others ← raPinned cert pins
      pure (matched :: others)

/-- The first certificate that matches, and its index. -/
def findPinned (pin : FpPin) : Nat → List Bytes → Prog σ Failure (Option (Nat × Bytes))
  | _, [] => pure none
  | i, cert :: certs => do
      let matched ← fpMatches env pin cert
      if matched = true then pure (some (i, cert)) else findPinned pin (i + 1) certs

/-- The loop over the certificates beside the pinned one. `signed` is cleared by the first one kept that
the pinned one did not sign, which is the deferred error. -/
structure Judgement where
  kept : List Bytes
  hits : List Bool
  signed : Bool
  ignoredLeaf : Bool
deriving DecidableEq, Repr

def judgeOne (pins : List FpPin) (pinned : Bytes) (j : Judgement) (cert : Bytes) :
    Prog σ Failure Judgement := do
  let matched ← raPinned env cert pins
  let hits := List.zipWith or j.hits matched
  if matched.any id = true then
    if j.signed = true then
      let signed ← certSignedBy env cert pinned
      pure { j with kept := j.kept ++ [cert], hits := hits, signed := signed }
    else pure { j with kept := j.kept ++ [cert], hits := hits }
  else
    let ca ← certIsCa env cert
    pure { j with hits := hits, ignoredLeaf := j.ignoredLeaf || ca = some false }

def judgeOthers (pins : List FpPin) (pinned : Bytes) : List Bytes → Judgement → Prog σ Failure Judgement
  | [], j => pure j
  | cert :: certs, j => do
      let j ← judgeOne env pins pinned j cert
      judgeOthers pins pinned certs j

/-- What is kept of the response, the pinned certificate apart from the others. -/
structure Narrowed where
  pinned : Bytes
  others : List Bytes
  caIsRa : Bool
  ignoredLeaf : Bool
deriving DecidableEq, Repr

def narrowToPin (pin : CaPin) (who : Bytes) (served : List Bytes) : Prog σ Failure Narrowed := do
  match ← findPinned env pin.ca 0 served with
  | none =>
      Prog.fail
        (complaint .errAuth who ": the GetCACert response does not match --ca-fingerprint\n")
  | some (place, pinned) => do
      let matched ← raPinned env pinned pin.ra
      let j ← judgeOthers env pin.ra pinned (served.eraseIdx place) ⟨[], matched, true, false⟩
      Prog.require (j.signed = true)
        (complaint .errAuth who (": a certificate matching --ra-fingerprint was not signed by the " ++
          "pinned CA or is not valid now\n"))
      Prog.require (j.hits.all id = true)
        (complaint .errAuth who ": no served certificate matches --ra-fingerprint\n")
      pure ⟨pinned, j.kept, matched.any id, j.ignoredLeaf⟩

/-- Without a pin everything is kept, the first certificate in the place of the pinned one. -/
def narrow (pin : CaPin) (who first : Bytes) (rest : List Bytes) : Prog σ Failure Narrowed :=
  if pin.ca.digest = [] then pure ⟨first, rest, false, false⟩
  else narrowToPin env pin who (first :: rest)

/-- Why certificates were left out. -/
def ignoredReason (pin : CaPin) (n : Narrowed) : Prog σ Failure Bytes :=
  if pin.ra ≠ [] then pure (ascii "no --ra-fingerprint names")
  else if n.ignoredLeaf = false then pure (ascii "--ca-fingerprint does not name")
  else do
    let ca ← certIsCa env n.pinned
    pure (if ca = some true then ascii "only --ra-fingerprint admits"
      else ascii "--ca-fingerprint does not name")

def noteIgnored (pin : CaPin) (who : Bytes) (note : Bool) (served : Nat) (n : Narrowed) :
    Prog σ Failure Bytes :=
  if n.others.length + 1 < served ∧ note = true then do
    let why ← ignoredReason env pin n
    pure (who ++ ascii ": ignoring " ++ decimal (served - (n.others.length + 1)) ++ ascii " of " ++
      decimal served ++ ascii " served certificates, which " ++ why ++ ascii "\n")
  else pure []

/-- The set, and what was printed about the certificates left out. -/
def scepCaSetFromDer (der : Bytes) (pin : CaPin) (who : Bytes) (note : Bool) :
    Prog σ Failure (ScepCaSet × Bytes) := do
  let served := servedCerts env der.length der
  Prog.require (served.length ≤ env.maxPkcs7Certs)
    ⟨.errParse, who ++ ascii ": the GetCACert response holds more than " ++
      decimal env.maxPkcs7Certs ++ ascii " certificates\n"⟩
  match served with
  | [] => Prog.fail (complaint .errParse who ": the GetCACert response holds no certificate\n")
  | first :: rest => do
      let n ← narrow env pin who first rest
      let bundle := n.pinned ++ n.others.flatten
      let granted ← Prog.call fun w => env.alloc w bundle.length
      Prog.require (granted = true) (complaint .errMemory who ": out of memory\n")
      let printed ← noteIgnored env pin who note (rest.length + 1) n
      pure (⟨bundle, none, n.caIsRa⟩, printed)

def selectComplaint (pin : CaPin) (who : Bytes) : Rc → Failure
  | .errProtocol =>
      ⟨.errProtocol, who ++ ascii (": more than one served certificate could receive the request; " ++
        "name one with ") ++
        (if pin.ca.digest ≠ [] then ascii "--ra-fingerprint"
          else ascii "--ca-fingerprint and --ra-fingerprint") ++ ascii "\n"⟩
  | .errUnsupported =>
      complaint .errUnsupported who ": no served RSA certificate can receive the request\n"
  | rc => ⟨rc, []⟩

/-- `cs->ra == cs->bundle` is the offset zero. -/
def scepCaSetPickRa (cs : ScepCaSet) (pin : CaPin) (who : Bytes) : Prog σ Failure ScepCaSet := do
  let picked ← Prog.mapError (selectComplaint pin who) (selectRaCert env.toRaCrypto cs.bundle)
  Prog.require (¬(pin.ra ≠ [] ∧ picked.1 = 0 ∧ cs.caIsRa = false))
    (complaint .errAuth who ": no certificate --ra-fingerprint names can receive the request\n")
  pure { cs with ra := some picked }

section Served

/-- `GetLength` reads a definite length as the DER reader does, and an indefinite one as zero. -/
def GetLengthLaw : Prop :=
  ∀ input idx len, charAt input = 0x30 → env.getLength input = some (idx, len) →
    derReadTlv input = some (idx, 0x30, len) ∨
      idx = 2 ∧ len = 0 ∧ ∃ rest, input = 0x30 :: 0x80 :: rest

variable {env}

theorem derCertLen_piece (lengths : GetLengthLaw env) {p : Bytes} (found : derCertLen env p ≠ 0) :
    IsPiece (p.take (derCertLen env p)) := by
  unfold derCertLen at found ⊢
  split
  · rename_i refused
    exact absurd (if_pos refused) found
  · rename_i start
    cases read : env.getLength p with
    | none =>
        rw [if_neg start, read] at found
        exact absurd rfl found
    | some answer =>
        obtain ⟨idx, len⟩ := answer
        rw [not_or, not_not] at start
        rcases lengths p idx len start.2 read with definite | ⟨rfl, rfl, rest, rfl⟩
        · obtain ⟨header, fits⟩ := derReadTlv_le definite
          have size : (p.take (idx + len)).length = idx + len := by
            rw [List.length_take, Nat.min_eq_left fits]
          change IsPiece (p.take (idx + len))
          refine ⟨List.ne_nil_of_length_pos (by omega), fun rest => .inr ?_⟩
          rw [size, derSeqLen, derReadTlv_take definite rest]
          rfl
        · exact ⟨List.cons_ne_nil _ _, fun _ => .inl rfl⟩

theorem servedCerts_pieces (lengths : GetLengthLaw env) {fuel : Nat} {der cert : Bytes}
    (served : cert ∈ servedCerts env fuel der) : IsPiece cert := by
  induction fuel generalizing der with
  | zero => cases served
  | succ fuel ih =>
      rw [servedCerts] at served
      split at served
      · cases served
      · rename_i found
        rcases List.mem_cons.mp served with rfl | later
        · exact derCertLen_piece lengths found
        · exact ih later

end Served

section Pins

variable {env} {digest : FpAlg → Bytes → Bytes} {Signed : Bytes → Bytes → Prop} {w w' : σ}

/-- The digest of the certificate is the one of the pin. -/
def FpPin.Names (digest : FpAlg → Bytes → Bytes) (pin : FpPin) (cert : Bytes) : Prop :=
  ∃ alg, resolveFpAlg pin.alg pin.digest = some alg ∧ digest alg cert = pin.digest

/-- Fingerprint and signature checks are sound. -/
structure ChecksSound (env : CliCrypto σ) (digest : FpAlg → Bytes → Bytes)
    (Signed : Bytes → Bytes → Prop) : Prop where
  digests : DigestSound env.toRaCrypto digest
  signatures : ∀ issuer cert w w', env.verifyBuffer issuer cert w = (true, w') → Signed issuer cert

theorem fpMatches_sound (sound : ChecksSound env digest Signed) {pin : FpPin} {cert : Bytes}
    (run : fpMatches env pin cert w = some (.ok true, w')) : pin.Names digest cert := by
  simp only [fpMatches, Prog.bind_ok_iff, Prog.attempt_ok_iff] at run
  obtain ⟨outcome, v, checked, ended⟩ := run
  cases outcome with
  | error rc => cases ended
  | ok _ => exact verifyCaFingerprint_sound sound.digests checked

theorem raPinned_sound (sound : ChecksSound env digest Signed) {cert : Bytes} {pins : List FpPin}
    {matched : List Bool} (run : raPinned env cert pins w = some (.ok matched, w')) :
    List.Forall₂ (fun pin hit => hit = true → pin.Names digest cert) pins matched := by
  induction pins generalizing matched w with
  | nil =>
      cases run
      exact .nil
  | cons pin pins ih =>
      simp only [raPinned, Prog.bind_ok_iff] at run
      obtain ⟨hit, v, checked, others, v', later, ended⟩ := run
      cases ended
      refine .cons (fun yes => ?_) (ih later)
      subst yes
      exact fpMatches_sound sound checked

/-- A flag that is set was set for some pin. -/
theorem exists_of_any {P : FpPin → Prop} {pins : List FpPin} {hits : List Bool}
    (marked : List.Forall₂ (fun pin hit => hit = true → P pin) pins hits)
    (some : hits.any id = true) : ∃ pin ∈ pins, P pin := by
  induction marked with
  | nil => cases some
  | @cons pin hit pins hits first rest ih =>
      rw [List.any_cons, Bool.or_eq_true] at some
      rcases some with here | later
      · exact ⟨pin, List.mem_cons_self, first here⟩
      · obtain ⟨found, member, holds⟩ := ih later
        exact ⟨found, List.mem_cons_of_mem _ member, holds⟩

theorem forall_of_all {P : FpPin → Prop} {pins : List FpPin} {hits : List Bool}
    (marked : List.Forall₂ (fun pin hit => hit = true → P pin) pins hits)
    (all : hits.all id = true) : ∀ pin ∈ pins, P pin := by
  induction marked with
  | nil => exact fun _ inside => by cases inside
  | cons first rest ih =>
      rw [List.all_cons, Bool.and_eq_true] at all
      exact List.forall_mem_cons.mpr ⟨first all.1, ih all.2⟩

theorem forall₂_or {P Q R : FpPin → Prop} {pins : List FpPin} {hits matched : List Bool}
    (before : List.Forall₂ (fun pin hit => hit = true → P pin) pins hits)
    (here : List.Forall₂ (fun pin hit => hit = true → Q pin) pins matched)
    (left : ∀ pin, P pin → R pin) (right : ∀ pin, Q pin → R pin) :
    List.Forall₂ (fun pin hit => hit = true → R pin) pins (List.zipWith or hits matched) := by
  induction before generalizing matched with
  | nil => cases here; exact .nil
  | @cons pin hit pins hits first rest ih =>
      cases here with
      | cons now later =>
          refine .cons (fun set => ?_) (ih later)
          rcases Bool.or_eq_true _ _ ▸ set with earlier | new
          · exact left _ (first earlier)
          · exact right _ (now new)

theorem findPinned_sound (sound : ChecksSound env digest Signed) {pin : FpPin} {i place : Nat}
    {certs : List Bytes} {pinned : Bytes}
    (run : findPinned env pin i certs w = some (.ok (some (place, pinned)), w')) :
    i ≤ place ∧ certs[place - i]? = some pinned ∧ pin.Names digest pinned := by
  induction certs generalizing i w with
  | nil => cases run
  | cons cert certs ih =>
      simp only [findPinned, Prog.bind_ok_iff, Prog.ite_apply] at run
      obtain ⟨hit, v, checked, run⟩ := run
      split at run
      · rename_i yes
        subst yes
        cases run
        exact ⟨Nat.le_refl _, by simp, fpMatches_sound sound checked⟩
      · obtain ⟨beyond, member, named⟩ := ih run
        refine ⟨by omega, ?_, named⟩
        rw [show place - i = place - (i + 1) + 1 by omega, List.getElem?_cons_succ]
        exact member

theorem certSignedBy_sound (sound : ChecksSound env digest Signed) {cert issuer : Bytes}
    (run : certSignedBy env cert issuer w = some (.ok true, w')) : Signed issuer cert := by
  simp only [certSignedBy, Prog.bind_ok_iff, Prog.ite_apply] at run
  obtain ⟨_, _, -, run⟩ := run
  split at run
  · cases run
  · obtain ⟨_, _, -, run⟩ := Prog.bind_ok_iff.mp run
    rw [Prog.ite_apply] at run
    split at run
    · cases run
    · exact sound.signatures _ _ _ _ (Prog.call_ok_iff.mp run)

/-- What the loop has established over the certificates it has seen, the pinned one among them. -/
structure Judged (digest : FpAlg → Bytes → Bytes) (Signed : Bytes → Bytes → Prop) (pins : List FpPin)
    (pinned : Bytes) (seen : List Bytes) (j : Judgement) : Prop where
  kept : j.kept.Sublist seen
  named : ∀ cert ∈ j.kept, ∃ pin ∈ pins, pin.Names digest cert
  signed : j.signed = true → ∀ cert ∈ j.kept, Signed pinned cert
  hits : List.Forall₂ (fun pin hit => hit = true → ∃ cert ∈ pinned :: seen, pin.Names digest cert)
    pins j.hits

theorem judgeOne_keeps (sound : ChecksSound env digest Signed) {pins : List FpPin} {pinned cert : Bytes}
    {seen : List Bytes} {j j' : Judgement} (judged : Judged digest Signed pins pinned seen j)
    (run : judgeOne env pins pinned j cert w = some (.ok j', w')) :
    Judged digest Signed pins pinned (seen ++ [cert]) j' := by
  simp only [judgeOne, Prog.bind_ok_iff] at run
  obtain ⟨matched, v, checked, run⟩ := run
  have here := raPinned_sound sound checked
  have hits : List.Forall₂ (fun pin hit => hit = true →
      ∃ c ∈ pinned :: (seen ++ [cert]), pin.Names digest c) pins (List.zipWith or j.hits matched) := by
    refine forall₂_or judged.hits here ?_ ?_
    · rintro pin ⟨c, member, names⟩
      exact ⟨c, List.mem_append_left [cert] member, names⟩
    · exact fun pin names => ⟨cert, by simp, names⟩
  by_cases named : matched.any id = true
  · have names : ∀ c ∈ j.kept ++ [cert], ∃ pin ∈ pins, pin.Names digest c := by
      intro c member
      rcases List.mem_append.mp member with earlier | new
      · exact judged.named c earlier
      · rw [List.mem_singleton.mp new]
        exact exists_of_any here named
    rw [if_pos named] at run
    by_cases signed : j.signed = true
    · rw [if_pos signed] at run
      obtain ⟨verdict, v', verified, ended⟩ := Prog.bind_ok_iff.mp run
      cases ended
      refine ⟨judged.kept.append (.refl _), names, fun yes c member => ?_, hits⟩
      rcases List.mem_append.mp member with earlier | new
      · exact judged.signed signed c earlier
      · rw [List.mem_singleton.mp new]
        dsimp only at yes
        subst yes
        exact certSignedBy_sound sound verified
    · rw [if_neg signed] at run
      cases run
      exact ⟨judged.kept.append (.refl _), names, fun yes => absurd yes signed, hits⟩
  · rw [if_neg named] at run
    obtain ⟨ca, v', -, ended⟩ := Prog.bind_ok_iff.mp run
    cases ended
    exact ⟨judged.kept.trans (List.sublist_append_left _ _), judged.named, judged.signed, hits⟩

theorem judgeOthers_keeps (sound : ChecksSound env digest Signed) {pins : List FpPin} {pinned : Bytes}
    {certs seen : List Bytes} {j j' : Judgement} (judged : Judged digest Signed pins pinned seen j)
    (run : judgeOthers env pins pinned certs j w = some (.ok j', w')) :
    Judged digest Signed pins pinned (seen ++ certs) j' := by
  induction certs generalizing seen j w with
  | nil =>
      cases run
      rw [List.append_nil]
      exact judged
  | cons cert certs ih =>
      simp only [judgeOthers, Prog.bind_ok_iff] at run
      obtain ⟨next, v, judgedOne, later⟩ := run
      have all := ih (judgeOne_keeps sound judged judgedOne) later
      rw [List.append_assoc] at all
      exact all

/-- What is kept under a CA pin. -/
structure Trusted (digest : FpAlg → Bytes → Bytes) (Signed : Bytes → Bytes → Prop) (pin : CaPin)
    (served : List Bytes) (place : Nat) (pinned : Bytes) (others : List Bytes) : Prop where
  isServed : served[place]? = some pinned
  named : pin.ca.Names digest pinned
  further : others.Sublist (served.eraseIdx place)
  admitted : ∀ other ∈ others, (∃ ra ∈ pin.ra, ra.Names digest other) ∧ Signed pinned other
  covered : ∀ ra ∈ pin.ra, ∃ cert ∈ served, ra.Names digest cert

theorem narrowToPin_trusted (sound : ChecksSound env digest Signed) {pin : CaPin} {who : Bytes}
    {served : List Bytes} {n : Narrowed}
    (run : narrowToPin env pin who served w = some (.ok n, w')) :
    (∃ place, Trusted digest Signed pin served place n.pinned n.others) ∧
      (n.caIsRa = true → ∃ ra ∈ pin.ra, ra.Names digest n.pinned) := by
  simp only [narrowToPin, Prog.bind_ok_iff] at run
  obtain ⟨found, v, searched, run⟩ := run
  cases found with
  | none => cases run
  | some answer =>
      obtain ⟨place, pinned⟩ := answer
      simp only [Prog.bind_ok_iff, Prog.require_ok_iff, Prog.pure_apply, Option.some.injEq,
        Prod.mk.injEq, Except.ok.injEq] at run
      obtain ⟨matched, _, checked, j, _, judged, _, _, ⟨signed, -⟩, _, _, ⟨all, -⟩, rfl, -⟩ := run
      obtain ⟨-, isServed, named⟩ := findPinned_sound sound searched
      have here := raPinned_sound sound checked
      have start : Judged digest Signed pin.ra pinned [] ⟨[], matched, true, false⟩ :=
        ⟨List.nil_sublist _, by simp, by simp,
          here.imp fun _ _ hit set => ⟨pinned, List.mem_cons_self, hit set⟩⟩
      have done := judgeOthers_keeps sound start judged
      rw [List.nil_append] at done
      rw [Nat.sub_zero] at isServed
      refine ⟨⟨place, isServed, named, done.kept, ?_, ?_⟩, exists_of_any here⟩
      · exact fun other member => ⟨done.named other member, done.signed signed other member⟩
      · intro ra member
        obtain ⟨cert, among, names⟩ := forall_of_all done.hits all ra member
        refine ⟨cert, ?_, names⟩
        rcases List.mem_cons.mp among with rfl | other
        · exact List.mem_of_getElem? isServed
        · exact List.mem_of_mem_eraseIdx other

/-- A set that was narrowed is made of certificates the server sent: all of them without a pin, those
that may be trusted under one. -/
theorem scepCaSetFromDer_cases (sound : ChecksSound env digest Signed) {der who printed : Bytes}
    {pin : CaPin} {note : Bool} {cs : ScepCaSet}
    (run : scepCaSetFromDer env der pin who note w = some (.ok (cs, printed), w')) :
    (pin.ca.digest = [] ∧ cs.bundle = (servedCerts env der.length der).flatten) ∨
    (pin.ca.digest ≠ [] ∧ ∃ place pinned others,
      Trusted digest Signed pin (servedCerts env der.length der) place pinned others ∧
      cs.bundle = (pinned :: others).flatten ∧
      (cs.caIsRa = true → ∃ ra ∈ pin.ra, ra.Names digest pinned)) := by
  simp only [scepCaSetFromDer, Prog.bind_ok_iff] at run
  obtain ⟨_, _, -, run⟩ := run
  cases served : servedCerts env der.length der with
  | nil =>
      rw [served] at run
      cases run
  | cons first rest =>
      simp only [served, Prog.bind_ok_iff, Prog.pure_apply, Option.some.injEq, Prod.mk.injEq,
        Except.ok.injEq] at run
      obtain ⟨n, _, narrowed, _, _, -, _, _, -, _, _, -, ⟨rfl, -⟩, -⟩ := run
      by_cases unpinned : pin.ca.digest = []
      · rw [narrow, if_pos unpinned] at narrowed
        cases narrowed
        exact .inl ⟨unpinned, rfl⟩
      · rw [narrow, if_neg unpinned] at narrowed
        obtain ⟨⟨place, trusted⟩, isRa⟩ := narrowToPin_trusted sound narrowed
        exact .inr ⟨unpinned, place, n.pinned, n.others, trusted, rfl, isRa⟩

/-- The recipient is a certificate of the set, and with RA pins the first one only if they name it. -/
theorem scepCaSetPickRa_mem {cs set : ScepCaSet} {pin : CaPin} {who : Bytes} {certs : List Bytes}
    (pieces : ∀ cert ∈ certs, IsPiece cert) (bundle : cs.bundle = certs.flatten)
    (run : scepCaSetPickRa env cs pin who w = some (.ok set, w')) :
    ∃ offset recipient, set = { cs with ra := some (offset, recipient) } ∧
      ((certs.head? = some recipient ∧ (pin.ra ≠ [] → cs.caIsRa = true)) ∨ recipient ∈ certs.tail) := by
  simp only [scepCaSetPickRa, Prog.bind_ok_iff, Prog.mapError_ok_iff, Prog.require_ok_iff,
    Prog.pure_apply, Option.some.injEq, Prod.mk.injEq, Except.ok.injEq] at run
  obtain ⟨⟨offset, recipient⟩, _, selected, _, _, ⟨allowed, -⟩, rfl, -⟩ := run
  refine ⟨offset, recipient, rfl, ?_⟩
  have member := selectRaCert_mem selected
  rw [bundle] at member
  rcases bundlePieces_flatten pieces member with ⟨start, head⟩ | ⟨-, tail⟩
  · refine .inl ⟨head, fun pins => ?_⟩
    by_contra other
    exact allowed ⟨pins, start, Bool.eq_false_iff.mpr other⟩
  · exact .inr tail

/-- A certificate no pin names is neither trusted nor a recipient. -/
theorem Trusted.excludes {pin : CaPin} {served others : List Bytes} {place : Nat} {pinned cert : Bytes}
    (trusted : Trusted digest Signed pin served place pinned others)
    (noCa : ¬pin.ca.Names digest cert) (noRa : ∀ ra ∈ pin.ra, ¬ra.Names digest cert) :
    cert ∉ pinned :: others := by
  intro member
  rcases List.mem_cons.mp member with rfl | other
  · exact noCa trusted.named
  · obtain ⟨⟨ra, among, names⟩, -⟩ := trusted.admitted cert other
    exact noRa ra among names

/-- With a CA pin the bundle is the pinned certificate and behind it only such as an RA pin names and the
pinned one signed; the recipient is one of them, and with RA pins one they name. -/
theorem ca_set_enforces_pins (lengths : GetLengthLaw env) (sound : ChecksSound env digest Signed)
    {der who printed : Bytes} {pin : CaPin} {note : Bool} {cs set : ScepCaSet} {v v' : σ}
    (narrowed : scepCaSetFromDer env der pin who note w = some (.ok (cs, printed), w'))
    (picked : scepCaSetPickRa env cs pin who v = some (.ok set, v')) :
    ∃ offset recipient, set = { cs with ra := some (offset, recipient) } ∧
      (pin.ca.digest ≠ [] → ∃ place pinned others,
        Trusted digest Signed pin (servedCerts env der.length der) place pinned others ∧
        set.bundle = (pinned :: others).flatten ∧
        recipient ∈ pinned :: others ∧
        (pin.ra ≠ [] → ∃ ra ∈ pin.ra, ra.Names digest recipient) ∧
        ∀ cert, ¬pin.ca.Names digest cert → (∀ ra ∈ pin.ra, ¬ra.Names digest cert) →
          cert ∉ pinned :: others ∧ cert ≠ recipient) ∧
      (pin.ca.digest = [] → set.bundle = (servedCerts env der.length der).flatten ∧
        recipient ∈ servedCerts env der.length der) := by
  rcases scepCaSetFromDer_cases sound narrowed with
    ⟨unpinned, bundle⟩ | ⟨pinGiven, place, pinned, others, trusted, bundle, isRa⟩
  · obtain ⟨offset, recipient, rfl, chosen⟩ :=
      scepCaSetPickRa_mem (fun _ => servedCerts_pieces lengths) bundle picked
    refine ⟨offset, recipient, rfl, fun given => absurd unpinned given, fun _ => ⟨bundle, ?_⟩⟩
    rcases chosen with ⟨head, -⟩ | tail
    · exact List.mem_of_mem_head? (Option.mem_def.mpr head)
    · exact List.mem_of_mem_tail tail
  · have pieces : ∀ cert ∈ pinned :: others, IsPiece cert := by
      intro cert member
      refine servedCerts_pieces lengths (?_ : cert ∈ servedCerts env der.length der)
      rcases List.mem_cons.mp member with rfl | other
      · exact List.mem_of_getElem? trusted.isServed
      · exact List.mem_of_mem_eraseIdx (trusted.further.subset other)
    obtain ⟨offset, recipient, rfl, chosen⟩ := scepCaSetPickRa_mem pieces bundle picked
    have member : recipient ∈ pinned :: others := by
      rcases chosen with ⟨head, -⟩ | tail
      · exact List.mem_of_mem_head? (Option.mem_def.mpr head)
      · exact List.mem_of_mem_tail tail
    refine ⟨offset, recipient, rfl, fun _ => ⟨place, pinned, others, trusted, bundle, member, ?_, ?_⟩,
      fun unpinned => absurd unpinned pinGiven⟩
    · intro pins
      rcases chosen with ⟨head, allowed⟩ | tail
      · cases head
        exact isRa (allowed pins)
      · exact (trusted.admitted recipient tail).1
    · intro cert noCa noRa
      have absent := trusted.excludes noCa noRa
      exact ⟨absent, fun same => absent (same ▸ member)⟩

end Pins

/-! A response with an RA certificate, a stray one and the CA that signed the former. -/

def exampleCa : Bytes := [0x30, 1, 1]

def exampleRa : Bytes := [0x30, 1, 2]

def exampleStray : Bytes := [0x30, 1, 3]

def exampleDigest (input : Bytes) : Bytes := List.replicate 29 0 ++ input

def exampleFields (der : Bytes) : RaFields where
  publicKey := der
  subjectHash := der
  issuerHash := exampleCa
  isCa := der = exampleCa
  isRsa := true
  keyUsage := none

def exampleCli : CliCrypto Http.Wire where
  toWolfCrypt :=
    { exampleCrypt ⟨[], [], [], []⟩ with
      sha256Hash := fun input w => (.ok (exampleDigest input), w) }
  parseCandidate der w := (.ok (exampleFields der), w)
  shaHash input w := (.ok (exampleDigest input), w)
  sha512Hash input w := (.ok (exampleDigest input), w)
  hasSha := true
  maxPkcs7Certs := 15
  getLength input :=
    match derReadTlv input with
    | some (idx, 0x30, len) => some (idx, len)
    | _ => none
  certManagerNew w := (true, w)
  loadCaBuffer _ w := (true, w)
  verifyBuffer issuer cert w := (decide (issuer = exampleCa ∧ cert = exampleRa), w)

def examplePin : CaPin where
  ca := ⟨exampleDigest exampleCa, .auto, by decide⟩
  ra := [⟨exampleDigest exampleRa, .sha256, by decide⟩]
  fits := by decide

def exampleWire : Http.Wire := ⟨[], [], false, false⟩

def exampleServed : Bytes := exampleRa ++ exampleStray ++ exampleCa

def exampleSet : ScepCaSet := ⟨exampleCa ++ exampleRa, none, false⟩

theorem exampleCli_lengths : GetLengthLaw exampleCli := by
  intro input idx len _ found
  refine .inl ?_
  simp only [exampleCli] at found
  split at found
  · rename_i read
    cases found
    exact read
  · cases found

theorem exampleCli_sound : ChecksSound exampleCli (fun _ => exampleDigest)
    fun issuer cert => issuer = exampleCa ∧ cert = exampleRa where
  digests := by
    constructor <;>
      · intro input w out w' hashed
        cases hashed
        rfl
  signatures issuer cert w w' verified := of_decide_eq_true (Prod.mk.inj verified).1

theorem ca_set_enforces_pins_example :
    ∃ place pinned others, Trusted (fun _ => exampleDigest)
      (fun issuer cert => issuer = exampleCa ∧ cert = exampleRa) examplePin
      [exampleRa, exampleStray, exampleCa] place pinned others ∧
      exampleCa ++ exampleRa = (pinned :: others).flatten ∧ exampleRa ∈ pinned :: others := by
  have narrowed : scepCaSetFromDer exampleCli exampleServed examplePin (ascii "scep") false exampleWire =
      some (.ok (exampleSet, []), exampleWire) := by decide +kernel
  have picked : scepCaSetPickRa exampleCli exampleSet examplePin (ascii "scep") exampleWire =
      some (.ok { exampleSet with ra := some (3, exampleRa) }, exampleWire) := by decide +kernel
  have served : servedCerts exampleCli exampleServed.length exampleServed =
      [exampleRa, exampleStray, exampleCa] := by decide +kernel
  obtain ⟨offset, recipient, same, pinned, -⟩ :=
    ca_set_enforces_pins exampleCli_lengths exampleCli_sound narrowed picked
  cases same
  obtain ⟨place, ca, others, trusted, bundle, member, -⟩ := pinned (by decide)
  rw [served] at trusted
  exact ⟨place, ca, others, trusted, bundle, member⟩

end WolfCert.Cli
