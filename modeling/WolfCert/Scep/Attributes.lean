import Mathlib.Data.List.Forall2
import WolfCert.Scep.Element
import WolfCert.Scep.Message

/-!
# The signed attributes of a message

What `wolfcert_scep_parse_pki_message` accepts and leaves in its outputs, and that it reads back what
`build_signed_attribs` writes.
-/

namespace WolfCert.Scep

open WolfCert.CLib

/-! ## Values -/

/-- `v` is one element with that content, in a SET or not; a text is a PrintableString without NUL. -/
def AttrContent (bit : ScepAttr) (v content : Bytes) : Prop :=
  content ≠ [] ∧ ∃ tag element, (v = element ∧ tag ≠ 0x31 ∨ IsElement 0x31 element v) ∧
    IsElement tag content element ∧ (bit.isText = true → tag = 0x13 ∧ 0 ∉ content)

theorem AttrContent.value {bit : ScepAttr} {v content : Bytes} (value : AttrContent bit v content) :
    scepAttrValue bit v = some content := by
  obtain ⟨filled, tag, element, place, whole, text⟩ := value
  have positive := List.length_pos_iff.mpr filled
  have accepted : ¬(bit.isText = true ∧ (tag ≠ 0x13 ∨ content.contains 0 = true)) := by
    rintro ⟨isText, other | nul⟩
    · exact other (text isText).1
    · exact (text isText).2 (List.contains_iff_mem.mp nul)
  rcases place with ⟨rfl, bare⟩ | wrapped
  · obtain ⟨hdr, read, size, split⟩ := derReadTlv_element whole []
    rw [List.append_nil] at read
    have taken : (v.drop hdr).take content.length = content := by rw [split, List.take_length]
    simp only [scepAttrValue, read, if_neg fun both : tag = 0x31 ∧ content.length > 0 => bare both.1, taken]
    rw [if_neg (by omega), if_neg (by omega), if_neg accepted]
  · obtain ⟨outer, readOuter, sizeOuter, splitOuter⟩ := derReadTlv_element wrapped []
    obtain ⟨hdr, read, size, split⟩ := derReadTlv_element whole []
    rw [List.append_nil] at readOuter read
    have inside : (v.drop outer).take element.length = element := by rw [splitOuter, List.take_length]
    have taken : (v.drop (outer + hdr)).take content.length = content := by
      rw [← List.drop_drop, splitOuter, split, List.take_length]
    have big : element.length > 0 := by omega
    simp only [scepAttrValue, readOuter, if_pos (And.intro trivial big), inside, read, Option.map_some, taken]
    rw [if_neg (by omega), if_neg (by omega), if_neg accepted]

theorem scepAttrValue_content {bit : ScepAttr} {v content : Bytes}
    (found : scepAttrValue bit v = some content) : AttrContent bit v content := by
  unfold scepAttrValue at found
  cases readOuter : derReadTlv v with
  | none =>
      rw [readOuter] at found
      cases found
  | some outer =>
      obtain ⟨hdr, tag, clen⟩ := outer
      obtain ⟨bytes, rest, whole, shape, width, size, -⟩ := derReadTlv_sound readOuter
      simp only [readOuter] at found
      have length := congrArg List.length shape
      rw [List.length_append, size] at length
      by_cases wrapped : tag = 0x31 ∧ clen > 0
      · rw [if_pos wrapped] at found
        cases read : derReadTlv ((v.drop hdr).take clen) with
        | none =>
            rw [read] at found
            cases found
        | some inner =>
            obtain ⟨hdr', tag', clen'⟩ := inner
            obtain ⟨bytes', rest', whole', shape', width', size', -⟩ := derReadTlv_sound read
            simp only [read, Option.map_some] at found
            have length' := congrArg List.length shape'
            rw [List.length_append, size', width] at length'
            split at found
            · cases found
            · split at found
              · cases found
              · rename_i filled exact'
                split at found
                · cases found
                · rename_i text
                  -- nothing is left behind the element, neither in the SET nor after it
                  obtain rfl : rest = [] := List.length_eq_zero_iff.mp (by omega)
                  obtain rfl : rest' = [] := List.length_eq_zero_iff.mp (by omega)
                  rw [List.append_nil] at shape shape'
                  have value : (v.drop (hdr + hdr')).take clen' =
                      (((v.drop hdr).take clen).drop hdr').take clen' := by
                    rw [List.drop_take, List.take_take, List.drop_drop, Nat.min_eq_left (by omega)]
                  rw [value, Option.some.injEq] at found
                  subst found
                  refine ⟨List.ne_nil_of_length_pos (by omega), tag', bytes', .inr ?_, whole', fun isText => ?_⟩
                  · rw [← shape', ← wrapped.1]
                    rw [← shape] at whole
                    exact whole
                  · rw [value] at text
                    obtain ⟨isString, clean⟩ := not_or.mp (not_and.mp text isText)
                    exact ⟨not_not.mp isString, fun nul => clean (List.contains_iff_mem.mpr nul)⟩
      · rw [if_neg wrapped] at found
        dsimp only at found
        split at found
        · cases found
        · split at found
          · cases found
          · rename_i filled exact'
            split at found
            · cases found
            · rename_i text
              obtain rfl : rest = [] := List.length_eq_zero_iff.mp (by omega)
              rw [List.append_nil] at shape
              rw [Option.some.injEq] at found
              subst found
              refine ⟨List.ne_nil_of_length_pos (by omega), tag, v,
                .inl ⟨rfl, fun set => wrapped ⟨set, by omega⟩⟩, ?_, fun isText => ?_⟩
              · rw [← shape] at whole
                exact whole
              · obtain ⟨isString, clean⟩ := not_or.mp (not_and.mp text isText)
                exact ⟨not_not.mp isString, fun nul => clean (List.contains_iff_mem.mpr nul)⟩

theorem scepAttrValue_iff {bit : ScepAttr} {v content : Bytes} :
    scepAttrValue bit v = some content ↔ AttrContent bit v content :=
  ⟨scepAttrValue_content, AttrContent.value⟩

/-! ## Attributes by their type -/

/-- The attributes of one of the six types. -/
def ofType (bit : ScepAttr) (attributes : List Attribute) : List Attribute :=
  attributes.filter fun a => a.oid == bit.oid

theorem scepAttrBit_iff {a : Attribute} {bit : ScepAttr} : scepAttrBit a = some bit ↔ a.oid = bit.oid := by
  have different : ∀ other : ScepAttr, other.oid = bit.oid → other = bit := by
    intro other
    cases other <;> cases bit <;> decide
  constructor
  · intro found
    have holds := List.find?_some found
    exact beq_iff_eq.mp holds
  · intro same
    unfold scepAttrBit
    cases found : List.find? (fun bit => a.oid == bit.oid)
      [ScepAttr.msgType, .pkiStatus, .failInfo, .transId, .senderNonce, .recipNonce] with
    | none =>
        have absent := List.find?_eq_none.mp found bit (by cases bit <;> decide)
        simp [same] at absent
    | some other =>
        have holds := List.find?_some found
        have own : a.oid = other.oid := beq_iff_eq.mp holds
        rw [different other (own.symm.trans same)]

theorem ofType_cons_own {bit : ScepAttr} {a : Attribute} (own : scepAttrBit a = some bit)
    (rest : List Attribute) : ofType bit (a :: rest) = a :: ofType bit rest := by
  have same : (a.oid == bit.oid) = true := beq_iff_eq.mpr (scepAttrBit_iff.mp own)
  rw [ofType, List.filter_cons, if_pos same]
  rfl

theorem ofType_cons_other {bit : ScepAttr} {a : Attribute} (other : scepAttrBit a ≠ some bit)
    (rest : List Attribute) : ofType bit (a :: rest) = ofType bit rest := by
  have differs : ¬(a.oid == bit.oid) = true := fun same => other (scepAttrBit_iff.mpr (beq_iff_eq.mp same))
  rw [ofType, List.filter_cons, if_neg differs]
  rfl

/-- Each type occurs at most once, not if it was seen before, and with a value. -/
def CleanAfter (seen : List ScepAttr) (attributes : List Attribute) : Prop :=
  ∀ bit, ofType bit attributes = [] ∨
    (bit ∉ seen ∧ ∃ a content, ofType bit attributes = [a] ∧ AttrContent bit a.value content)

theorem cleanAfter_cons {seen : List ScepAttr} {a : Attribute} {rest : List Attribute} {bit : ScepAttr}
    (own : scepAttrBit a = some bit) :
    CleanAfter seen (a :: rest) ↔ bit ∉ seen ∧ (∃ content, AttrContent bit a.value content) ∧
      CleanAfter (bit :: seen) rest := by
  constructor
  · intro clean
    have here := clean bit
    rw [ofType_cons_own own] at here
    rcases here with none | ⟨fresh, b, content, single, value⟩
    · cases none
    · obtain ⟨rfl, last⟩ := List.cons.inj single
      refine ⟨fresh, ⟨content, value⟩, fun other => ?_⟩
      by_cases same : other = bit
      · exact .inl (same ▸ last)
      · have there := clean other
        rw [ofType_cons_other (fun found => same (Option.some.inj (found.symm.trans own)))] at there
        exact there.imp id fun ⟨unseen, rest⟩ => ⟨by simp [same, unseen], rest⟩
  · rintro ⟨fresh, ⟨content, value⟩, clean⟩ other
    by_cases same : other = bit
    · subst same
      rw [ofType_cons_own own]
      rcases clean other with last | ⟨unseen, -⟩
      · exact .inr ⟨fresh, a, content, by rw [last], value⟩
      · exact absurd List.mem_cons_self unseen
    · rw [ofType_cons_other (fun found => same (Option.some.inj (found.symm.trans own)))]
      exact (clean other).imp id fun ⟨unseen, rest⟩ => ⟨fun seen => unseen (List.mem_cons_of_mem _ seen), rest⟩

/-! ## The outputs -/

/-- Every output NULL. -/
def PkiMessage.empty : PkiMessage where
  envelope := []
  signerCert := []
  messageType := none
  pkiStatus := none
  failInfo := none
  transactionId := none
  senderNonce := none
  recipientNonce := none

theorem PkiMessage.ext_get {m n : PkiMessage} (envelope : m.envelope = n.envelope)
    (signer : m.signerCert = n.signerCert) (same : ∀ bit, m.get bit = n.get bit) : m = n := by
  obtain ⟨⟩ := m
  obtain ⟨⟩ := n
  have msgType := same .msgType
  have pkiStatus := same .pkiStatus
  have failInfo := same .failInfo
  have transId := same .transId
  have senderNonce := same .senderNonce
  have recipNonce := same .recipNonce
  simp only [PkiMessage.get] at *
  simp [*]

variable {σ : Type} (env : WolfCrypt σ)

/-- The loop over the attributes, with what it has put into the outputs when it ends. -/
def readAttributes (wanted : ScepAttr → Bool) :
    List Attribute → List ScepAttr → PkiMessage → σ → (Rc × PkiMessage) × σ
  | [], _, m, w => ((.ok, m), w)
  | a :: rest, seen, m, w =>
      match scepAttrBit a with
      | none => readAttributes wanted rest seen m w
      | some bit =>
          if bit ∈ seen then ((.errProtocol, m), w)
          else
            match scepAttrValue bit a.value with
            | none => ((.errProtocol, m), w)
            | some value =>
                if wanted bit then
                  match env.alloc w (value.length + if bit.isText then 1 else 0) with
                  | (false, w) => ((.errMemory, m), w)
                  | (true, w) => readAttributes wanted rest (bit :: seen) (m.set value bit) w
                else readAttributes wanted rest (bit :: seen) m w

/-- The end of a failed call: what the caller asked for is freed and NULL again. -/
def releaseOutputs (wanted : ScepAttr → Bool) (m : PkiMessage) : PkiMessage where
  envelope := []
  signerCert := []
  messageType := if wanted .msgType then none else m.messageType
  pkiStatus := if wanted .pkiStatus then none else m.pkiStatus
  failInfo := if wanted .failInfo then none else m.failInfo
  transactionId := if wanted .transId then none else m.transactionId
  senderNonce := if wanted .senderNonce then none else m.senderNonce
  recipientNonce := if wanted .recipNonce then none else m.recipientNonce

/-- An empty field is NULL and takes no memory. -/
def allocateFilled (bytes : Bytes) (w : σ) : Bool × σ :=
  if bytes = [] then (true, w) else env.alloc w bytes.length

def finishOutputs (wanted : ScepAttr → Bool) : (Rc × PkiMessage) × σ → (Rc × PkiMessage) × σ
  | ((rc, out), w) => if rc = .ok then ((rc, out), w) else ((rc, releaseOutputs wanted out), w)

/-- `wolfcert_scep_parse_pki_message` with its outputs; `prior` is what they hold before. -/
def parsePkiMessageOutputs (wanted : ScepAttr → Bool) (pki : Bytes) (prior : PkiMessage) (w : σ) :
    (Rc × PkiMessage) × σ :=
  match env.pkcs7New w with
  | (false, w) => ((.errMemory, prior), w)
  | (true, w) =>
      match env.verifySignedData false pki w with
      | (.error e, w) => ((mapWcErr e, prior), w)
      | (.ok signed, w) =>
          match allocateFilled env signed.content w with
          | (false, w) => ((.errMemory, prior), w)
          | (true, w) =>
              let start := { PkiMessage.empty with envelope := signed.content }
              finishOutputs wanted (match allocateFilled env signed.verifyCert w with
                | (false, w) => ((.errMemory, start), w)
                | (true, w) => readAttributes env wanted signed.attributes []
                    { start with signerCert := signed.verifyCert } w)

/-- A code and the outputs as a result. -/
def outcome : Rc × PkiMessage → Except Rc PkiMessage
  | (.ok, m) => .ok m
  | (rc, _) => .error rc

theorem outcome_error {rc : Rc} {m : PkiMessage} (failed : rc ≠ .ok) : outcome (rc, m) = .error rc := by
  cases rc <;> first
    | exact absurd rfl failed
    | rfl

/-- The loop is the one that returns the message alone. -/
theorem readAttributes_eq (wanted : ScepAttr → Bool) (attributes : List Attribute) (seen : List ScepAttr)
    (m : PkiMessage) (w : σ) :
    parseAttributes env wanted attributes seen m w =
      some (outcome (readAttributes env wanted attributes seen m w).1,
        (readAttributes env wanted attributes seen m w).2) := by
  induction attributes generalizing seen m w with
  | nil => rfl
  | cons a rest ih =>
      rw [parseAttributes, readAttributes]
      cases kind : scepAttrBit a with
      | none => exact ih seen m w
      | some bit =>
          dsimp only
          by_cases known : bit ∈ seen
          · rw [if_pos known, Prog.bind_of_error (Prog.require_of_not (not_not.mpr known) _ _)]
            rfl
          · rw [if_neg known, Prog.bind_of_ok (Prog.require_of known _ _)]
            cases scepAttrValue bit a.value with
            | none => rfl
            | some value =>
                dsimp only
                cases wanted bit with
                | false => exact ih (bit :: seen) m w
                | true =>
                    have asked := env.allocate_eq (value.length + if bit.isText then 1 else 0) w
                    change (env.allocate _ >>= fun _ => _) w = _
                    cases reply : env.alloc w (value.length + if bit.isText then 1 else 0) with
                    | mk granted v =>
                        rw [reply] at asked
                        cases granted with
                        | true =>
                            rw [Prog.bind_of_ok asked]
                            exact ih (bit :: seen) (m.set value bit) v
                        | false =>
                            rw [Prog.bind_of_error asked]
                            rfl

/-- Allocating what is not empty, as a step of a program. -/
theorem allocateFilled_eq {α : Type} (bytes : Bytes) (next : Prog σ Rc α) (w : σ) :
    (if bytes ≠ [] then env.allocate bytes.length >>= fun _ => next else next) w =
      match allocateFilled env bytes w with
      | (false, w) => some (.error .errMemory, w)
      | (true, w) => next w := by
  unfold allocateFilled
  by_cases empty : bytes = []
  · rw [if_neg (not_not.mpr empty), if_pos empty]
  · rw [if_pos empty, if_neg empty]
    have asked := env.allocate_eq bytes.length w
    cases reply : env.alloc w bytes.length with
    | mk granted v =>
        rw [reply] at asked
        cases granted with
        | true => rw [Prog.bind_of_ok asked]
        | false => rw [Prog.bind_of_error asked]

/-- The call with its outputs refines the one that returns the message alone. -/
theorem parsePkiMessageOutputs_eq (wanted : ScepAttr → Bool) (pki : Bytes) (prior : PkiMessage) (w : σ) :
    parsePkiMessage env wanted pki w =
      some (outcome (parsePkiMessageOutputs env wanted pki prior w).1,
        (parsePkiMessageOutputs env wanted pki prior w).2) := by
  have finish : ∀ (rc : Rc) (m : PkiMessage) (w : σ),
      (finishOutputs wanted ((rc, m), w)).2 = w ∧
        outcome (finishOutputs wanted ((rc, m), w)).1 = outcome (rc, m) := by
    intro rc m w
    rw [finishOutputs]
    by_cases ok : rc = .ok
    · simp [ok]
    · simp [ok, outcome_error ok]
  unfold parsePkiMessage parsePkiMessageOutputs
  cases new : env.pkcs7New w with
  | mk made v =>
      have called : (Prog.call env.pkcs7New : Prog σ Rc Bool) w = some (.ok made, v) :=
        Prog.call_ok_iff.mpr new
      cases made with
      | false =>
          rw [Prog.bind_of_error (e := .errMemory) (v := v)]
          · rfl
          · rw [WolfCrypt.newPkcs7, Prog.bind_of_ok called]
            exact Prog.require_of_not (by decide) _ _
      | true =>
          have opened : env.newPkcs7 w = some (.ok (), v) := by
            rw [WolfCrypt.newPkcs7, Prog.bind_of_ok called]
            exact Prog.require_of rfl _ _
          rw [Prog.bind_of_ok opened]
          dsimp only
          cases reply : env.verifySignedData false pki v with
          | mk result u =>
              cases result with
              | error e =>
                  rw [Prog.bind_of_error (e := mapWcErr e) (v := u) (by rw [Prog.callMap, reply]; rfl)]
                  rw [outcome_error (mapWcErr_refuses e).1]
              | ok signed =>
                  have verified : Prog.callMap mapWcErr (env.verifySignedData false pki) v =
                      some (.ok signed, u) := by
                    rw [Prog.callMap, reply]
                    rfl
                  rw [Prog.bind_of_ok verified]
                  refine (allocateFilled_eq env signed.content _ u).trans ?_
                  dsimp only
                  cases allocateFilled env signed.content u with
                  | mk granted x =>
                      cases granted with
                      | false => rfl
                      | true =>
                          refine (allocateFilled_eq env signed.verifyCert _ x).trans ?_
                          dsimp only
                          cases allocateFilled env signed.verifyCert x with
                          | mk granted y =>
                              cases granted with
                              | false =>
                                  dsimp only
                                  rw [(finish _ _ _).1, (finish _ _ _).2]
                                  rfl
                              | true =>
                                  dsimp only
                                  rw [readAttributes_eq, (finish _ _ _).1, (finish _ _ _).2]
                                  rfl

/-- With memory for every value the loop ends well exactly if the attributes are clean. -/
theorem readAttributes_spec {env : WolfCrypt σ} (granted : ∀ w n, (env.alloc w n).1 = true)
    (wanted : ScepAttr → Bool) (attributes : List Attribute) (seen : List ScepAttr) (m : PkiMessage) (w : σ) :
    ∃ rc m' w', readAttributes env wanted attributes seen m w = ((rc, m'), w') ∧
      (rc = .ok ↔ CleanAfter seen attributes) ∧ (rc ≠ .ok → rc = .errProtocol) ∧
      m'.envelope = m.envelope ∧ m'.signerCert = m.signerCert ∧
      (∀ bit, wanted bit = false → m'.get bit = m.get bit) ∧
      (rc = .ok → ∀ bit, wanted bit = true →
        m'.get bit = ((ofType bit attributes).head?.bind fun a => scepAttrValue bit a.value).or (m.get bit)) := by
  induction attributes generalizing seen m w with
  | nil => exact ⟨.ok, m, w, rfl, by simp [CleanAfter, ofType], by simp, rfl, rfl, by simp, by simp [ofType]⟩
  | cons a rest ih =>
      rw [readAttributes]
      cases kind : scepAttrBit a with
      | none =>
          have skips : ∀ bit, ofType bit (a :: rest) = ofType bit rest := fun bit =>
            ofType_cons_other (by simp [kind]) rest
          obtain ⟨rc, m', w', ran, clean, others⟩ := ih seen m w
          refine ⟨rc, m', w', ran, ?_, ?_⟩
          · rw [clean]
            simp only [CleanAfter, skips]
          · simpa only [skips] using others
      | some bit =>
          dsimp only
          rw [cleanAfter_cons kind]
          by_cases known : bit ∈ seen
          · rw [if_pos known]
            exact ⟨.errProtocol, m, w, rfl, by simp [known], by simp, rfl, rfl, by simp, by simp⟩
          · rw [if_neg known]
            cases value : scepAttrValue bit a.value with
            | none =>
                have none : ¬∃ content, AttrContent bit a.value content := by
                  rintro ⟨content, found⟩
                  rw [found.value] at value
                  cases value
                exact ⟨.errProtocol, m, w, rfl, by simp [none], by simp, rfl, rfl, by simp, by simp⟩
            | some content =>
                dsimp only
                have found : ∃ content, AttrContent bit a.value content := ⟨content, scepAttrValue_content value⟩
                have later : ∀ other, other ≠ bit → ofType other (a :: rest) = ofType other rest :=
                  fun other differs => ofType_cons_other
                    (fun same => differs (Option.some.inj (same.symm.trans kind))) rest
                have last : ∀ {next}, CleanAfter (bit :: seen) next → ofType bit next = [] := fun clean =>
                  (clean bit).resolve_right fun seen => seen.1 List.mem_cons_self
                cases asked : wanted bit with
                | false =>
                    obtain ⟨rc, m', w', ran, clean, codes, envelope, signer, kept, read⟩ := ih (bit :: seen) m w
                    refine ⟨rc, m', w', ran, ?_, codes, envelope, signer, kept, fun ended other yes => ?_⟩
                    · rw [clean]
                      simp [known, found]
                    · have differs : other ≠ bit := by
                        rintro rfl
                        rw [asked] at yes
                        cases yes
                      rw [later other differs]
                      exact read ended other yes
                | true =>
                    have memory := granted w (content.length + if bit.isText then 1 else 0)
                    cases reply : env.alloc w (content.length + if bit.isText then 1 else 0) with
                    | mk given v =>
                        rw [reply] at memory
                        obtain rfl : given = true := memory
                        obtain ⟨rc, m', w', ran, clean, codes, envelope, signer, kept, read⟩ :=
                          ih (bit :: seen) (m.set content bit) v
                        refine ⟨rc, m', w', ran, ?_, codes, by simpa using envelope, by simpa using signer,
                          fun other no => ?_, fun ended other yes => ?_⟩
                        · rw [clean]
                          simp [known, found]
                        · have differs : other ≠ bit := by
                            rintro rfl
                            rw [asked] at no
                            cases no
                          rw [kept other no, PkiMessage.get_set, if_neg (Ne.symm differs)]
                        · rw [read ended other yes, PkiMessage.get_set]
                          by_cases same : other = bit
                          · subst same
                            rw [last (clean.mp ended), ofType_cons_own kind, if_pos rfl]
                            simp [value]
                          · rw [later other same, if_neg (Ne.symm same)]

/-! ## Exactness -/

/-- Each of the six types occurs at most once, and then with one value. -/
def Clean (attributes : List Attribute) : Prop :=
  ∀ bit, ofType bit attributes = [] ∨
    ∃ a content, ofType bit attributes = [a] ∧ AttrContent bit a.value content

/-- The signature of a message verifies, and no allocation fails. -/
structure Verifies (env : WolfCrypt σ) (pki : Bytes) (w : σ) (signed : SignedData) : Prop where
  made : (env.pkcs7New w).1 = true
  verified : (env.verifySignedData false pki (env.pkcs7New w).2).1 = .ok signed
  granted : ∀ w n, (env.alloc w n).1 = true

section Exactness

variable {env} {wanted : ScepAttr → Bool} {pki : Bytes} {w : σ} {signed : SignedData}

theorem cleanAfter_nil {attributes : List Attribute} : CleanAfter [] attributes ↔ Clean attributes := by
  simp [CleanAfter, Clean]

theorem allocateFilled_granted (granted : ∀ w n, (env.alloc w n).1 = true) (bytes : Bytes) (w : σ) :
    ∃ w', allocateFilled env bytes w = (true, w') := by
  unfold allocateFilled
  split
  · exact ⟨w, rfl⟩
  · exact ⟨_, Prod.ext (granted w bytes.length) rfl⟩

theorem releaseOutputs_empty {m : PkiMessage} (unwanted : ∀ bit, wanted bit = false → m.get bit = none) :
    releaseOutputs wanted m = .empty := by
  refine PkiMessage.ext_get rfl rfl fun bit => ?_
  have none := unwanted bit
  cases bit <;> simp only [releaseOutputs, PkiMessage.get, PkiMessage.empty] at none ⊢ <;>
    · split
      · rfl
      · rename_i no
        exact none (Bool.eq_false_iff.mpr no)

/-- Past the signature a call is the loop over the attributes. -/
theorem Verifies.outputs (verifies : Verifies env pki w signed) (wanted : ScepAttr → Bool)
    (prior : PkiMessage) :
    ∃ rc out w', parsePkiMessageOutputs env wanted pki prior w = ((rc, out), w') ∧
      (rc = .ok ↔ Clean signed.attributes) ∧ (rc ≠ .ok → rc = .errProtocol ∧ out = .empty) ∧
      (rc = .ok → out.envelope = signed.content ∧ out.signerCert = signed.verifyCert ∧
        ∀ bit, out.get bit = if wanted bit then
          (ofType bit signed.attributes).head?.bind fun a => scepAttrValue bit a.value else none) := by
  obtain ⟨made, verified, granted⟩ := verifies
  unfold parsePkiMessageOutputs
  cases new : env.pkcs7New w with
  | mk done v =>
      rw [new] at made verified
      obtain rfl : done = true := made
      dsimp only at verified ⊢
      cases reply : env.verifySignedData false pki v with
      | mk result u =>
          rw [reply] at verified
          obtain rfl : result = .ok signed := verified
          obtain ⟨x, content⟩ := allocateFilled_granted granted signed.content u
          obtain ⟨y, signer⟩ := allocateFilled_granted granted signed.verifyCert x
          dsimp only
          rw [content]
          dsimp only
          rw [signer]
          obtain ⟨rc, m, z, ran, clean, codes, envelope, cert, kept, read⟩ :=
            readAttributes_spec granted wanted signed.attributes []
              { PkiMessage.empty with envelope := signed.content, signerCert := signed.verifyCert } y
          have nothing : ∀ bit, wanted bit = false → m.get bit = none := fun bit no => by
            rw [kept bit no]
            cases bit <;> rfl
          dsimp only
          rw [ran, finishOutputs]
          rw [cleanAfter_nil] at clean
          by_cases ok : rc = .ok
          · refine ⟨rc, m, z, by rw [if_pos ok], clean, fun failed => absurd ok failed, fun _ =>
              ⟨envelope, cert, fun bit => ?_⟩⟩
            cases asked : wanted bit with
            | false => exact nothing bit asked
            | true =>
                rw [read ok bit asked]
                cases bit <;> exact Option.or_none
          · exact ⟨rc, releaseOutputs wanted m, z, by rw [if_neg ok], clean,
              fun _ => ⟨codes ok, releaseOutputs_empty nothing⟩, fun yes => absurd yes ok⟩

theorem Clean.perm {attributes others : List Attribute}
    (same : ∀ bit, (ofType bit others).Perm (ofType bit attributes)) :
    Clean others ↔ Clean attributes := by
  refine forall_congr' fun bit => or_congr ?_ (exists₂_congr fun a content => and_congr_left fun _ => ?_)
  · exact ⟨fun none => (none ▸ same bit).nil_eq.symm, fun none => (none ▸ same bit).eq_nil⟩
  · constructor
    · intro one
      exact List.perm_singleton.mp (one ▸ same bit).symm
    · intro one
      exact List.perm_singleton.mp (one ▸ same bit)

/-- The call succeeds on clean attributes and on no others, its outputs are then the contents of their
values and else empty, and neither the order nor attributes of other types matter. -/
theorem parse_pki_message_exact (verifies : Verifies env pki w signed) (wanted : ScepAttr → Bool)
    (prior : PkiMessage) :
    ∃ rc out w', parsePkiMessageOutputs env wanted pki prior w = ((rc, out), w') ∧
      (rc = .ok ↔ Clean signed.attributes) ∧
      (rc = .ok → out.envelope = signed.content ∧ out.signerCert = signed.verifyCert ∧
        ∀ bit content, out.get bit = some content ↔
          wanted bit = true ∧ ∃ a, ofType bit signed.attributes = [a] ∧ AttrContent bit a.value content) ∧
      (rc ≠ .ok → rc = .errProtocol ∧ out = .empty) ∧
      ∀ (env' : WolfCrypt σ) (pki' : Bytes) (v : σ) (signed' : SignedData) (prior' : PkiMessage),
        Verifies env' pki' v signed' → signed'.content = signed.content →
        signed'.verifyCert = signed.verifyCert →
        (∀ bit, (ofType bit signed'.attributes).Perm (ofType bit signed.attributes)) →
        (parsePkiMessageOutputs env' wanted pki' prior' v).1 = (rc, out) := by
  obtain ⟨rc, out, w', ran, clean, failed, read⟩ := verifies.outputs wanted prior
  refine ⟨rc, out, w', ran, clean, fun ok => ?_, failed, ?_⟩
  · obtain ⟨envelope, signer, gets⟩ := read ok
    refine ⟨envelope, signer, fun bit content => ?_⟩
    rw [gets bit]
    cases wanted bit with
    | false => simp
    | true =>
        rcases clean.mp ok bit with none | ⟨a, found, one, value⟩
        · simp [none]
        · simp [one, scepAttrValue_iff]
  · intro env' pki' v signed' prior' verifies' content signer same
    obtain ⟨rc', out', u, ran', clean', failed', read'⟩ := verifies'.outputs wanted prior'
    rw [ran']
    have both : rc' = .ok ↔ rc = .ok := by rw [clean', clean, Clean.perm same]
    by_cases ok : rc = .ok
    · have ok' := both.mpr ok
      obtain ⟨envelope, cert, gets⟩ := read ok
      obtain ⟨envelope', cert', gets'⟩ := read' ok'
      have agree : out' = out := by
        refine PkiMessage.ext_get (by rw [envelope', envelope, content]) (by rw [cert', cert, signer])
          fun bit => ?_
        have order := same bit
        rw [gets', gets]
        rcases clean.mp ok bit with none | ⟨a, _, one, -⟩
        · rw [none] at order ⊢
          rw [order.eq_nil]
        · rw [one] at order ⊢
          rw [List.perm_singleton.mp order]
      rw [agree, ok, ok']
    · obtain ⟨code, empty⟩ := failed ok
      obtain ⟨code', empty'⟩ := failed' (fun yes => ok (both.mp yes))
      rw [code, code', empty, empty']

end Exactness

/-! ## The round trip -/

def ScepAttrs.get (a : ScepAttrs) : ScepAttr → Option Bytes
  | .msgType => a.messageType
  | .pkiStatus => a.pkiStatus
  | .failInfo => a.failInfo
  | .transId => a.transactionId
  | .senderNonce => a.senderNonce
  | .recipNonce => a.recipientNonce

/-- The attribute as it was built, its value bare or in a SET. -/
def Carried (built reached : Attribute) : Prop :=
  reached.oid = built.oid ∧ (reached.value = built.value ∨ IsElement 0x31 built.value reached.value)

theorem isPrintableString_no_nul {v : Bytes} (printable : isPrintableString v = true) : 0 ∉ v := by
  intro nul
  have bad := List.all_eq_true.mp printable 0 nul
  exact absurd bad (by decide)

theorem encPrintableN_ok {v encoded : Bytes} {cap : Nat} (put : encPrintableN v cap = .ok encoded) :
    isPrintableString v = true ∧ encTlv 0x13 v cap = some encoded := by
  unfold encPrintableN at put
  split at put
  · cases put
  · rename_i printable
    split at put
    · cases put
    · rename_i written
      cases put
      exact ⟨by simpa using printable, written⟩

theorem buildAttrib_ok {bit : ScepAttr} {v : Bytes} {cap : Nat} {a : Attribute}
    (built : buildAttrib bit v cap = .ok a) :
    a.oid = bit.oid ∧ (bit.isText = false ∧ encTlv 0x04 v cap = some a.value ∨
      isPrintableString v = true ∧ encTlv 0x13 v cap = some a.value) := by
  unfold buildAttrib at built
  split at built
  all_goals split at built
  all_goals cases built
  all_goals first
    | exact ⟨rfl, .inl ⟨rfl, ‹_›⟩⟩
    | exact ⟨rfl, .inr (encPrintableN_ok ‹_›)⟩

/-- A value that was built is one element with that content. -/
theorem buildAttrib_element {bit : ScepAttr} {v : Bytes} {cap : Nat} {a : Attribute}
    (built : buildAttrib bit v cap = .ok a) :
    a.oid = bit.oid ∧ ∃ tag, tag ≠ 0x31 ∧ IsElement tag v a.value ∧
      (bit.isText = true → tag = 0x13 ∧ 0 ∉ v) := by
  obtain ⟨oid, ⟨binary, put⟩ | ⟨printable, put⟩⟩ := buildAttrib_ok built
  · exact ⟨oid, 0x04, by decide, encTlv_element put, by simp [binary]⟩
  · exact ⟨oid, 0x13, by decide, encTlv_element put, fun _ => ⟨rfl, isPrintableString_no_nul printable⟩⟩

/-- Of each type that has a value one attribute is built, and of the others none. -/
theorem buildAttribs_ofType {items : List (ScepAttr × Option Bytes)} {cap : Nat} {attributes : List Attribute}
    (built : buildAttribs items cap = .ok attributes) (distinct : (items.map Prod.fst).Nodup)
    (bit : ScepAttr) :
    (∀ v, (bit, some v) ∈ items → ∃ a tag, ofType bit attributes = [a] ∧ tag ≠ 0x31 ∧
      IsElement tag v a.value ∧ (bit.isText = true → tag = 0x13 ∧ 0 ∉ v)) ∧
    ((∀ v, (bit, some v) ∉ items) → ofType bit attributes = []) := by
  induction items generalizing cap attributes with
  | nil =>
      cases built
      exact ⟨fun _ inside => absurd inside List.not_mem_nil, fun _ => rfl⟩
  | cons item rest ih =>
      obtain ⟨kind, value⟩ := item
      rw [List.map_cons, List.nodup_cons] at distinct
      cases value with
      | none =>
          obtain ⟨present, absent⟩ := ih built distinct.2
          exact ⟨fun v inside => present v (by simpa using inside),
            fun none => absent fun v inside => none v (List.mem_cons_of_mem _ inside)⟩
      | some v =>
          simp only [buildAttribs] at built
          cases first : buildAttrib kind v cap with
          | error rc =>
              rw [first] at built
              cases built
          | ok a =>
              rw [first] at built
              dsimp only at built
              cases later : buildAttribs rest (cap - a.value.length) with
              | error rc =>
                  rw [later] at built
                  cases built
              | ok more =>
                  rw [later] at built
                  cases built
                  obtain ⟨oid, tag, bare, element, text⟩ := buildAttrib_element first
                  obtain ⟨present, absent⟩ := ih later distinct.2
                  have own : scepAttrBit a = some kind := scepAttrBit_iff.mpr oid
                  by_cases same : kind = bit
                  · subst same
                    have gone : ∀ u, (kind, some u) ∉ rest := fun u inside =>
                      distinct.1 (List.mem_map.mpr ⟨_, inside, rfl⟩)
                    have last : ofType kind more = [] := absent gone
                    rw [ofType_cons_own own, last]
                    refine ⟨fun u inside => ?_, fun none => absurd List.mem_cons_self (none v)⟩
                    rcases List.mem_cons.mp inside with here | other
                    · cases here
                      exact ⟨a, tag, rfl, bare, element, text⟩
                    · exact absurd other (gone u)
                  · rw [ofType_cons_other (fun found => same (Option.some.inj (own.symm.trans found)))]
                    refine ⟨fun u inside => present u ?_,
                      fun none => absent fun u inside => none u (List.mem_cons_of_mem _ inside)⟩
                    rcases List.mem_cons.mp inside with here | other
                    · cases here
                      exact absurd rfl same
                    · exact other

theorem buildSignedAttribs_ofType {a : ScepAttrs} {attributes : List Attribute}
    (built : buildSignedAttribs a = .ok attributes) (bit : ScepAttr) :
    match a.get bit with
    | none => ofType bit attributes = []
    | some v => ∃ b tag, ofType bit attributes = [b] ∧ tag ≠ 0x31 ∧ IsElement tag v b.value ∧
        (bit.isText = true → tag = 0x13 ∧ 0 ∉ v) := by
  obtain ⟨present, absent⟩ := buildAttribs_ofType built (by simp) bit
  cases value : a.get bit with
  | none =>
      refine absent fun v inside => ?_
      cases bit <;> simp_all [ScepAttrs.get]
  | some v =>
      refine present v ?_
      cases bit <;> simp_all [ScepAttrs.get]

/-- Carrying changes no type. -/
theorem ofType_carried {built reached : List Attribute} (carried : List.Forall₂ Carried built reached)
    (bit : ScepAttr) : List.Forall₂ Carried (ofType bit built) (ofType bit reached) := by
  refine List.rel_filter (fun b r both => ?_) carried
  simp only [both.1]

/-- What was built is read back, whatever the order and whatever stands between. -/
theorem signed_attributes_round_trip {env : WolfCrypt σ} {a : ScepAttrs} {built order : List Attribute}
    {pki : Bytes} {w : σ} {signed : SignedData} (builds : buildSignedAttribs a = .ok built)
    (filled : ∀ bit, a.get bit ≠ some []) (verifies : Verifies env pki w signed)
    (carried : List.Forall₂ Carried built order)
    (reached : (signed.attributes.filter fun r => (scepAttrBit r).isSome).Perm order)
    (wanted : ScepAttr → Bool) (prior : PkiMessage) :
    ∃ out w', parsePkiMessageOutputs env wanted pki prior w = ((.ok, out), w') ∧
      ∀ bit, out.get bit = if wanted bit then a.get bit else none := by
  have ofReached : ∀ bit, (ofType bit signed.attributes).Perm (ofType bit order) := by
    intro bit
    have typed : ofType bit signed.attributes =
        ofType bit (signed.attributes.filter fun r => (scepAttrBit r).isSome) := by
      rw [ofType, ofType, List.filter_filter]
      refine List.filter_congr fun r _ => ?_
      cases same : r.oid == bit.oid with
      | false => rfl
      | true => simp [scepAttrBit_iff.mpr (beq_iff_eq.mp same)]
    rw [typed]
    exact reached.filter _
  -- of each type there is the one attribute that was built, or none
  have values : ∀ bit, match a.get bit with
      | none => ofType bit signed.attributes = []
      | some v => ∃ r, ofType bit signed.attributes = [r] ∧ AttrContent bit r.value v := by
    intro bit
    have source := buildSignedAttribs_ofType builds bit
    have pairs := ofType_carried carried bit
    have perm := ofReached bit
    cases value : a.get bit with
    | none =>
        rw [value] at source
        rw [source] at pairs
        rw [List.forall₂_nil_left_iff.mp pairs] at perm
        exact perm.eq_nil
    | some v =>
        rw [value] at source
        obtain ⟨b, tag, one, bare, element, text⟩ := source
        rw [one] at pairs
        obtain ⟨r, rest, both, none, shape⟩ := List.forall₂_cons_left_iff.mp pairs
        rw [List.forall₂_nil_left_iff.mp none] at shape
        rw [shape] at perm
        refine ⟨r, List.perm_singleton.mp perm, fun empty => filled bit (by rw [value, empty]), tag, b.value, ?_,
          element, text⟩
        exact both.2.imp (fun same => ⟨same, bare⟩) id
  obtain ⟨rc, out, w', ran, clean, -, read⟩ := verifies.outputs wanted prior
  have ok : rc = .ok := clean.mpr fun bit => by
    have here := values bit
    cases value : a.get bit with
    | none =>
        rw [value] at here
        exact .inl here
    | some v =>
        rw [value] at here
        obtain ⟨r, one, content⟩ := here
        exact .inr ⟨r, v, one, content⟩
  obtain ⟨-, -, gets⟩ := read ok
  refine ⟨out, w', ok ▸ ran, fun bit => ?_⟩
  rw [gets bit]
  congr 1
  have here := values bit
  cases value : a.get bit with
  | none =>
      rw [value] at here
      simp [show ofType bit signed.attributes = [] from here]
  | some v =>
      rw [value] at here
      obtain ⟨r, one, content⟩ := here
      simp [one, content.value]

/-! A message with a nonce in a SET, an attribute of another type and a messageType. -/

def exampleBuilt : List Attribute :=
  [⟨ScepAttr.msgType.oid, [0x13, 1, 51]⟩, ⟨ScepAttr.senderNonce.oid, [0x04, 1, 5]⟩]

def exampleReached : List Attribute :=
  [⟨ScepAttr.senderNonce.oid, [0x31, 3, 0x04, 1, 5]⟩, ⟨[6, 1, 1], []⟩, ⟨ScepAttr.msgType.oid, [0x13, 1, 51]⟩]

def exampleSignedData : SignedData := ⟨[7], [], [8], exampleReached⟩

def exampleParser : WolfCrypt Http.Wire :=
  { exampleCrypt exampleSignedData with alloc := fun w _ => (true, w) }

theorem exampleParser_verifies :
    Verifies exampleParser [] ⟨[], [], false, false⟩ exampleSignedData := ⟨rfl, rfl, fun _ _ => rfl⟩

theorem parse_pki_message_exact_text :
    ∃ out w', parsePkiMessageOutputs exampleParser (fun _ => true) [] .empty ⟨[], [], false, false⟩ =
        ((.ok, out), w') ∧ out.get .msgType = some [51] := by
  obtain ⟨rc, out, w', ran, -, read, -, -⟩ :=
    parse_pki_message_exact exampleParser_verifies (fun _ => true) .empty
  have code : (parsePkiMessageOutputs exampleParser (fun _ => true) [] .empty
      ⟨[], [], false, false⟩).1.1 = .ok := by decide +kernel
  rw [ran] at code
  obtain rfl : rc = .ok := code
  refine ⟨out, w', ran, ((read rfl).2.2 .msgType [51]).mpr ⟨rfl, ⟨_, [0x13, 1, 51]⟩, rfl, ?_⟩⟩
  exact ⟨by simp, 0x13, _, .inl ⟨rfl, by decide⟩, ⟨[1], .short (by decide), rfl⟩, by decide⟩

theorem signed_attributes_round_trip_set :
    ∃ out w', parsePkiMessageOutputs exampleParser (fun _ => true) [] .empty ⟨[], [], false, false⟩ =
        ((.ok, out), w') ∧ out.get .senderNonce = some [5] ∧ out.get .recipNonce = none := by
  have builds : buildSignedAttribs ⟨some [51], none, some [5], none, none, none⟩ = .ok exampleBuilt := by
    decide +kernel
  have carried : List.Forall₂ Carried exampleBuilt
      (exampleReached.filter fun r => (scepAttrBit r).isSome).reverse :=
    .cons ⟨rfl, .inl rfl⟩ (.cons ⟨rfl, .inr ⟨[3], .short (by decide), rfl⟩⟩ .nil)
  obtain ⟨out, w', ran, gets⟩ := signed_attributes_round_trip builds (fun bit => by cases bit <;> decide)
    exampleParser_verifies carried (List.reverse_perm _).symm (fun _ => true) .empty
  exact ⟨out, w', ran, gets .senderNonce, gets .recipNonce⟩

end WolfCert.Scep
