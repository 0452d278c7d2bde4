import WolfCert.Scep.Element
import WolfCert.Scep.Message

/-!
# IssuerAndSerial and IssuerAndSubject

What the client builds is what the parsers of the server take apart again: the issuing CA's name with
the magnitude of a serial number, or with the subject of a CSR.
-/

namespace WolfCert.Scep

open WolfCert.CLib

/-! ## Magnitudes as numbers -/

/-- Without a leading zero, or as a single digit. -/
def Reduced (v : Bytes) : Prop := v.length = 1 ∨ charAt v ≠ 0

theorem intMagnitude_reduced {v : Bytes} (filled : v ≠ []) : Reduced (intMagnitude v) := by
  induction v using intMagnitude.induct with
  | case1 b rest ih =>
      simp only [intMagnitude]
      exact ih (by simp)
  | case2 v short =>
      rw [show intMagnitude v = v by rw [intMagnitude]; exact short]
      cases v with
      | nil => exact absurd rfl filled
      | cons a rest =>
          cases rest with
          | nil => exact .inl rfl
          | cons b rest =>
              refine .inr fun zero => short b rest ?_
              rw [show a = 0 from zero]

@[simp] theorem bigEndian_zero_cons (v : Bytes) : bigEndian (0 :: v) = bigEndian v := by
  simp [bigEndian]

theorem bigEndian_magnitude (v : Bytes) : bigEndian (intMagnitude v) = bigEndian v := by
  induction v using intMagnitude.induct with
  | case1 b rest ih =>
      simp only [intMagnitude]
      rw [ih, bigEndian_zero_cons]
  | case2 v short =>
      rw [show intMagnitude v = v by rw [intMagnitude]; exact short]

/-- Digits without a leading zero are those of their number. -/
theorem digits_bigEndian {v : Bytes} (filled : v ≠ []) (lead : charAt v ≠ 0) :
    Nat.digits 256 (bigEndian v) = v.reverse.map UInt8.toNat := by
  rw [bigEndian_ofDigits]
  refine Nat.digits_ofDigits 256 (by decide) _ ?_ ?_
  · intro digit inside
    obtain ⟨b, -, rfl⟩ := List.mem_map.mp inside
    exact b.toNat_lt
  · intro nonempty
    cases v with
    | nil => exact absurd rfl filled
    | cons b rest =>
        simp only [List.reverse_cons, List.map_append, List.map_cons, List.map_nil,
          List.getLast_append_singleton]
        exact fun zero => lead (UInt8.toNat_inj.mp zero)

theorem bigEndian_injective {v u : Bytes} (filledV : v ≠ []) (filledU : u ≠ []) (reducedV : Reduced v)
    (reducedU : Reduced u) (same : bigEndian v = bigEndian u) : v = u := by
  have single : ∀ {t : Bytes}, t.length = 1 → charAt t = 0 → t = [0] := by
    intro t one zero
    obtain ⟨b, rfl⟩ := List.length_eq_one_iff.mp one
    rw [show b = 0 from zero]
  -- only zero itself has the digit zero in front
  have zeros : ∀ {t : Bytes}, t ≠ [] → charAt t ≠ 0 → bigEndian t ≠ bigEndian [0] := by
    intro t filled lead zero
    have digits := digits_bigEndian filled lead
    rw [zero, show bigEndian [0] = 0 from rfl, Nat.digits_zero, eq_comm, List.map_eq_nil_iff,
      List.reverse_eq_nil_iff] at digits
    exact filled digits
  by_cases leadV : charAt v = 0
  · have isZero : v = [0] := single (reducedV.resolve_right (not_not.mpr leadV)) leadV
    by_cases leadU : charAt u = 0
    · rw [isZero, single (reducedU.resolve_right (not_not.mpr leadU)) leadU]
    · exact absurd (isZero ▸ same.symm) (zeros filledU leadU)
  · by_cases leadU : charAt u = 0
    · have isZero : u = [0] := single (reducedU.resolve_right (not_not.mpr leadU)) leadU
      exact absurd (isZero ▸ same) (zeros filledV leadV)
    · have digits := digits_bigEndian filledV leadV
      rw [same, digits_bigEndian filledU leadU] at digits
      have bytes : u.reverse = v.reverse :=
        List.map_injective_iff.mpr (fun a b equal => UInt8.toNat_inj.mp equal) digits
      exact (List.reverse_injective bytes).symm

theorem intMagnitude_eq_iff {s t : Bytes} (filledS : s ≠ []) (filledT : t ≠ []) :
    intMagnitude s = intMagnitude t ↔ bigEndian s = bigEndian t := by
  constructor
  · intro same
    rw [← bigEndian_magnitude s, same, bigEndian_magnitude]
  · intro same
    refine bigEndian_injective (intMagnitude_ne_nil filledS) (intMagnitude_ne_nil filledT)
      (intMagnitude_reduced filledS) (intMagnitude_reduced filledT) ?_
    rw [bigEndian_magnitude, bigEndian_magnitude, same]

/-- The content of an INTEGER that is not negative, in the fewest octets. -/
structure MinimalInteger (content : Bytes) : Prop where
  filled : content ≠ []
  nonnegative : charAt content &&& 0x80 = 0
  fewest : content.length = 1 ∨ charAt content ≠ 0 ∨ charAt content.tail &&& 0x80 ≠ 0

/-- The content that `enc_integer` writes. -/
def integerContent (v : Bytes) : Bytes := integerPad (intMagnitude v) ++ intMagnitude v

theorem integerContent_minimal {v : Bytes} (filled : v ≠ []) : MinimalInteger (integerContent v) := by
  have some := intMagnitude_ne_nil filled
  unfold integerContent integerPad
  by_cases high : charAt (intMagnitude v) &&& 0x80 ≠ 0
  · rw [if_pos high]
    exact ⟨by simp, show (0 : UInt8) &&& 0x80 = 0 by decide, .inr (.inr high)⟩
  · rw [if_neg high, List.nil_append]
    exact ⟨some, not_not.mp high, (intMagnitude_reduced filled).imp id .inl⟩

theorem bigEndian_integerContent (v : Bytes) : bigEndian (integerContent v) = bigEndian v := by
  unfold integerContent integerPad
  split
  · rw [List.cons_append, List.nil_append, bigEndian_zero_cons, bigEndian_magnitude]
  · rw [List.nil_append, bigEndian_magnitude]

theorem encIntegerContentLen_eq {v : Bytes} (filled : v ≠ []) :
    encIntegerContentLen v = (integerContent v).length := by
  rw [encIntegerContentLen, if_neg filled, integerContent, List.length_append]

/-! ## The size that is computed beforehand -/

theorem encTlvLen_bound {n : Nat} (small : n + 6 < 2 ^ 31) : encTlvLen n < 2 ^ 31 := by
  obtain ⟨len, few, -, put⟩ := derPutLen_fits (n := n) (by omega)
  rw [encTlvLen, put 8 (by omega)]
  dsimp only
  omega

/-- An element fits where its precomputed size does. -/
theorem encTlv_fits {v : Bytes} {cap : Nat} (tag : UInt8) (small : v.length < 2 ^ 32)
    (room : encTlvLen v.length ≤ cap) :
    ∃ encoded, encTlv tag v cap = some encoded ∧ encoded.length = encTlvLen v.length := by
  obtain ⟨len, few, -, put⟩ := derPutLen_fits small
  have size : encTlvLen v.length = 1 + len.length + v.length := by rw [encTlvLen, put 8 (by omega)]
  have built : encTlv tag v cap = some (tag :: len ++ v) := by
    rw [encTlv, if_neg (by omega), put (cap - 1) (by omega)]
    dsimp only
    rw [if_neg (by omega)]
  exact ⟨_, built, encTlv_length built⟩

/-- An element whose size an `int` holds is one of less than 2^31 - 6 octets. -/
theorem encTlv_small {tag : UInt8} {v encoded : Bytes} {cap : Nat} (put : encTlv tag v cap = some encoded)
    (int : encoded.length < 2 ^ 31) : v.length + 6 < 2 ^ 31 := by
  have length := encTlv_length put
  rw [encTlvLen] at length
  obtain ⟨len, -, written⟩ := IsTlv.cons ⟨cap, put⟩
  rw [written] at length
  dsimp only at length
  obtain ⟨len', -, wide, put'⟩ := derPutLen_fits (n := v.length) (by omega)
  by_cases short : v.length < 2 ^ 24
  · omega
  · have five := wide.resolve_left short
    have same := put' 8 (by omega)
    rw [written, Option.some.injEq] at same
    rw [same] at length
    omega

/-- The buffer is never too small: what is built or not depends on the two elements alone. -/
theorem encIssuerAnd_fits {issuer v : Bytes} {want : UInt8} {encode : Nat → Option Bytes}
    (element : ∀ cap, encode cap = encTlv want v cap) (issuerSmall : issuer.length + 6 < 2 ^ 31)
    (small : v.length + 6 < 2 ^ 31) :
    ∃ der, encIssuerAnd issuer (encTlvLen issuer.length + encTlvLen v.length) encode = some der ∧
      der.length ≤ encTlvLen issuer.length + encTlvLen v.length + 8 := by
  have firstInt := encTlvLen_bound issuerSmall
  have secondInt := encTlvLen_bound small
  obtain ⟨len, few, -, put⟩ := derPutLen_fits
    (n := encTlvLen issuer.length + encTlvLen v.length) (by omega)
  unfold encIssuerAnd
  rw [put _ (by omega)]
  dsimp only
  have room : encTlvLen issuer.length ≤
      encTlvLen issuer.length + encTlvLen v.length + 8 - (1 + len.length) := by omega
  obtain ⟨first, written, size⟩ := encTlv_fits 0x30 (by omega) room
  rw [encSeq, asInt_some.mpr ⟨written, by omega⟩]
  dsimp only
  have room' : encTlvLen v.length ≤
      encTlvLen issuer.length + encTlvLen v.length + 8 - (1 + len.length) - first.length := by omega
  obtain ⟨second, written', size'⟩ := encTlv_fits want (by omega) room'
  rw [element, asInt_some.mpr ⟨written', by omega⟩]
  refine ⟨_, rfl, ?_⟩
  simp only [List.length_append, List.length_cons]
  omega

theorem encIssuerAnd_small {issuer v der : Bytes} {inner : Nat} {want : UInt8}
    {encode : Nat → Option Bytes} (element : ∀ cap, encode cap = encTlv want v cap)
    (built : encIssuerAnd issuer inner encode = some der) :
    issuer.length + 6 < 2 ^ 31 ∧ v.length + 6 < 2 ^ 31 := by
  unfold encIssuerAnd at built
  split at built
  · cases built
  · dsimp only at built
    split at built
    · cases built
    · rename_i first fits
      split at built
      · cases built
      · rename_i second fits'
        obtain ⟨put, int⟩ := asInt_some.mp fits
        obtain ⟨put', int'⟩ := asInt_some.mp fits'
        rw [element] at put'
        exact ⟨encTlv_small put int, encTlv_small put' int'⟩

theorem encInteger_eq {serial : Bytes} (filled : serial ≠ []) (cap : Nat) :
    encInteger serial cap = encTlv 0x02 (integerContent serial) cap := by
  rw [encInteger, if_neg filled, integerContent]

theorem encIssuerAndSerial_content {issuer serial der : Bytes} (filled : serial ≠ [])
    (built : encIssuerAndSerial issuer serial = some der) :
    parseIssuerAnd 0x02 der = some (issuer, integerContent serial) := by
  refine parseIssuerAnd_encIssuerAnd built (fun cap second put => encInteger_eq filled cap ▸ put)
    fun cap cap' first second put put' => ?_
  rw [encInteger_eq filled] at put'
  rw [encTlv_length put, encTlv_length put', encIntegerContentLen_eq filled]

theorem encIssuerAndSerial_iff {issuer serial : Bytes} (filled : serial ≠ []) :
    (∃ der, encIssuerAndSerial issuer serial = some der) ↔
      issuer.length + 6 < 2 ^ 31 ∧ encIntegerContentLen serial + 6 < 2 ^ 31 := by
  rw [encIntegerContentLen_eq filled]
  constructor
  · rintro ⟨der, built⟩
    exact encIssuerAnd_small (encInteger_eq filled) built
  · rintro ⟨issuerSmall, small⟩
    obtain ⟨der, built, -⟩ := encIssuerAnd_fits (encInteger_eq filled) issuerSmall small
    refine ⟨der, ?_⟩
    rwa [encIssuerAndSerial, encIntegerContentLen_eq filled]

theorem encIssuerAndSerial_length {issuer serial der : Bytes} (filled : serial ≠ [])
    (built : encIssuerAndSerial issuer serial = some der) :
    der.length ≤ encTlvLen issuer.length + encTlvLen (encIntegerContentLen serial) + 8 := by
  obtain ⟨issuerSmall, small⟩ := encIssuerAnd_small (encInteger_eq filled) built
  obtain ⟨der', built', size⟩ := encIssuerAnd_fits (encInteger_eq filled) issuerSmall small
  rw [encIssuerAndSerial, encIntegerContentLen_eq filled, built', Option.some.injEq] at built
  rwa [encIntegerContentLen_eq filled, ← built]

theorem encSeq_eq (v : Bytes) (cap : Nat) : encSeq v cap = encTlv 0x30 v cap := rfl

theorem encIssuerAndSubject_iff {issuer subject : Bytes} :
    (∃ der, encIssuerAndSubject issuer subject = some der) ↔
      issuer.length + 6 < 2 ^ 31 ∧ subject.length + 6 < 2 ^ 31 := by
  constructor
  · rintro ⟨der, built⟩
    exact encIssuerAnd_small (encSeq_eq subject) built
  · rintro ⟨issuerSmall, small⟩
    obtain ⟨der, built, -⟩ := encIssuerAnd_fits (encSeq_eq subject) issuerSmall small
    exact ⟨der, built⟩

theorem encIssuerAndSubject_length {issuer subject der : Bytes}
    (built : encIssuerAndSubject issuer subject = some der) :
    der.length ≤ encTlvLen issuer.length + encTlvLen subject.length + 8 := by
  obtain ⟨issuerSmall, small⟩ := encIssuerAnd_small (encSeq_eq subject) built
  obtain ⟨der', built', size⟩ := encIssuerAnd_fits (encSeq_eq subject) issuerSmall small
  rw [encIssuerAndSubject, built', Option.some.injEq] at built
  rwa [← built]

/-- A SEQUENCE of a name and another element is taken apart, whatever the form of their lengths. -/
theorem parseIssuerAnd_elements {want : UInt8} {issuer v name next der : Bytes}
    (first : IsElement 0x30 issuer name) (second : IsElement want v next)
    (whole : IsElement 0x30 (name ++ next) der) : parseIssuerAnd want der = some (issuer, v) := by
  obtain ⟨hdr, read, size, inside⟩ := derReadTlv_element whole []
  obtain ⟨hdr₁, read₁, size₁, drop₁⟩ := derReadTlv_element first next
  obtain ⟨hdr₂, read₂, size₂, drop₂⟩ := derReadTlv_element second []
  rw [List.append_nil] at read read₂
  have issuer' : ((name ++ next).drop hdr₁).take issuer.length = issuer := by
    rw [List.drop_append_of_le_length (by omega), drop₁, List.take_left]
  have behind : (name ++ next).drop (hdr₁ + issuer.length) = next := by
    rw [← size₁, List.drop_left]
  simp only [parseIssuerAnd, read, inside, read₁, issuer', behind, read₂, drop₂]
  simp [size, size₂]

theorem intMagnitude_suffix (v : Bytes) : intMagnitude v <:+ v := by
  induction v using intMagnitude.induct with
  | case1 b rest ih =>
      simp only [intMagnitude]
      exact ih.trans (List.suffix_cons _ _)
  | case2 v short =>
      rw [show intMagnitude v = v by rw [intMagnitude]; exact short]

/-! ## The client's builders -/

section Builders

variable {σ : Type} {env : WolfCrypt σ} {raCert : Bytes} {w : σ}

/-- The calls before an IssuerAnd is written, as they have to go. -/
structure NamesIssuer (env : WolfCrypt σ) (raCert issuer : Bytes) (u v : σ) : Prop where
  parsed : ∃ ca, env.parseCert .certType raCert u = (.ok ca, v) ∧ issuingCaName ca = some issuer
  filled : issuer ≠ []

theorem issuerAndSerial_iff {serial der : Bytes} {w' : σ} :
    issuerAndSerial env raCert serial w = some (.ok der, w') ↔
      serial ≠ [] ∧ ∃ u v issuer, env.alloc w 1 = (true, u) ∧ NamesIssuer env raCert issuer u v ∧
        env.alloc v (encTlvLen issuer.length + encTlvLen (encIntegerContentLen serial) + 8) = (true, w') ∧
        encIssuerAndSerial issuer serial = some der := by
  simp only [issuerAndSerial, Prog.bind_ok_iff, Prog.require_ok_iff, env.allocate_ok_iff,
    Prog.callMap_ok_iff]
  constructor
  · rintro ⟨_, _, ⟨filled, rfl⟩, _, u, first, ca, v, parsed, run⟩
    refine ⟨filled, u, v, ?_⟩
    cases name : issuingCaName ca with
    | none => simp [name] at run
    | some issuer =>
        simp only [name, Prog.bind_ok_iff, Prog.require_ok_iff, env.allocate_ok_iff] at run
        obtain ⟨_, _, ⟨nonempty, rfl⟩, _, x, second, run⟩ := run
        cases built : encIssuerAndSerial issuer serial with
        | none => simp [built] at run
        | some found =>
            simp only [built, Prog.pure_apply, Option.some.injEq, Prod.mk.injEq, Except.ok.injEq] at run
            obtain ⟨rfl, rfl⟩ := run
            exact ⟨issuer, first, ⟨⟨ca, parsed, name⟩, nonempty⟩, second, built⟩
  · rintro ⟨filled, u, v, issuer, first, ⟨⟨ca, parsed, name⟩, nonempty⟩, second, built⟩
    refine ⟨(), w, ⟨filled, rfl⟩, (), u, first, ca, v, parsed, ?_⟩
    simp only [name, Prog.bind_ok_iff, Prog.require_ok_iff, env.allocate_ok_iff, built]
    exact ⟨(), v, ⟨nonempty, rfl⟩, (), w', second, rfl⟩

theorem issuerAndSubject_iff {csr der : Bytes} {w' : σ} :
    issuerAndSubject env raCert csr w = some (.ok der, w') ↔
      ∃ u v x issuer request subject, env.alloc w 2 = (true, u) ∧ NamesIssuer env raCert issuer u v ∧
        env.parseCert .certreqType csr v = (.ok request, x) ∧ request.subjectRaw = some subject ∧
        env.alloc x (encTlvLen issuer.length + encTlvLen subject.length + 8) = (true, w') ∧
        encIssuerAndSubject issuer subject = some der := by
  simp only [issuerAndSubject, Prog.bind_ok_iff, env.allocate_ok_iff, Prog.callMap_ok_iff]
  constructor
  · rintro ⟨_, u, first, ca, v, parsed, request, x, parsed', run⟩
    refine ⟨u, v, x, ?_⟩
    cases name : issuingCaName ca with
    | none => simp [name] at run
    | some issuer =>
        cases raw : request.subjectRaw with
        | none => simp [name, raw] at run
        | some subject =>
            simp only [name, raw, Prog.bind_ok_iff, Prog.require_ok_iff, env.allocate_ok_iff] at run
            obtain ⟨_, _, ⟨nonempty, rfl⟩, _, y, second, run⟩ := run
            cases built : encIssuerAndSubject issuer subject with
            | none => simp [built] at run
            | some found =>
                simp only [built, Prog.pure_apply, Option.some.injEq, Prod.mk.injEq, Except.ok.injEq] at run
                obtain ⟨rfl, rfl⟩ := run
                exact ⟨issuer, request, subject, first, ⟨⟨ca, parsed, name⟩, nonempty⟩, parsed', raw, second,
                  built⟩
  · rintro ⟨u, v, x, issuer, request, subject, first, ⟨⟨ca, parsed, name⟩, nonempty⟩, parsed', raw, second,
      built⟩
    refine ⟨(), u, first, ca, v, parsed, request, x, parsed', ?_⟩
    simp only [name, raw, Prog.bind_ok_iff, Prog.require_ok_iff, env.allocate_ok_iff, built]
    exact ⟨(), x, ⟨nonempty, rfl⟩, (), w', second, rfl⟩

/-- What an IssuerAndSerial that was built says. -/
structure SerialTrip (issuer serial der : Bytes) : Prop where
  parses : parseIssuerAndSerial der = some (issuer, intMagnitude serial)
  magnitude : intMagnitude serial <:+ serial ∧ Reduced (intMagnitude serial) ∧
    bigEndian (intMagnitude serial) = bigEndian serial
  integer : ∃ content, parseIssuerAnd 0x02 der = some (issuer, content) ∧ MinimalInteger content ∧
    bigEndian content = bigEndian serial
  size : der.length ≤ encTlvLen issuer.length + encTlvLen (encIntegerContentLen serial) + 8

theorem serialTrip {issuer serial der : Bytes} (filled : serial ≠ [])
    (built : encIssuerAndSerial issuer serial = some der) : SerialTrip issuer serial der where
  parses := parseIssuerAndSerial_enc built filled
  magnitude := ⟨intMagnitude_suffix serial, intMagnitude_reduced filled, bigEndian_magnitude serial⟩
  integer := ⟨_, encIssuerAndSerial_content filled built, integerContent_minimal filled,
    bigEndian_integerContent serial⟩
  size := encIssuerAndSerial_length filled built

example : encIssuerAndSerial [7] [0, 0, 0x80] = some [0x30, 7, 0x30, 1, 7, 0x02, 2, 0, 0x80] := by
  decide +kernel

/-- Two serial numbers are written alike exactly if they are one number. -/
theorem encIssuerAndSerial_eq_iff {issuer serial serial' der der' : Bytes} (filled : serial ≠ [])
    (filled' : serial' ≠ []) (built : encIssuerAndSerial issuer serial = some der)
    (built' : encIssuerAndSerial issuer serial' = some der') :
    der = der' ↔ bigEndian serial = bigEndian serial' := by
  rw [← intMagnitude_eq_iff filled filled']
  constructor
  · rintro rfl
    have one := parseIssuerAndSerial_enc built filled
    rw [parseIssuerAndSerial_enc built' filled'] at one
    simpa using one.symm
  · intro same
    have encoders : encInteger serial = encInteger serial' := by
      funext cap
      rw [encInteger, if_neg filled, encInteger, if_neg filled', same]
    rw [encIssuerAndSerial, encIntegerContentLen_eq filled, integerContent, same, encoders] at built
    rw [encIssuerAndSerial, encIntegerContentLen_eq filled', integerContent, built, Option.some.injEq] at built'
    exact built'

/-- What the client builds out of a certificate and a serial number or a CSR is taken apart again into
the issuing CA's name and the magnitude of the serial number, or the subject; and the buffer that is
computed beforehand is never too small. -/
theorem issuer_and_round_trips (env : WolfCrypt σ) (raCert : Bytes) (w : σ) :
    (∀ serial der w', issuerAndSerial env raCert serial w = some (.ok der, w') →
      ∃ v issuer, NamesIssuer env raCert issuer (env.alloc w 1).2 v ∧ SerialTrip issuer serial der) ∧
    (∀ serial serial' der der' v v', issuerAndSerial env raCert serial w = some (.ok der, v) →
      issuerAndSerial env raCert serial' w = some (.ok der', v') →
      (der = der' ↔ bigEndian serial = bigEndian serial')) ∧
    (∀ csr der w', issuerAndSubject env raCert csr w = some (.ok der, w') →
      ∃ v x issuer request subject, NamesIssuer env raCert issuer (env.alloc w 2).2 v ∧
        env.parseCert .certreqType csr v = (.ok request, x) ∧ request.subjectRaw = some subject ∧
        parseIssuerAndSubject der = some (issuer, subject) ∧
        der.length ≤ encTlvLen issuer.length + encTlvLen subject.length + 8) ∧
    ((∀ v size, (env.alloc v size).1 = true) →
      (∀ serial v issuer, serial ≠ [] → NamesIssuer env raCert issuer (env.alloc w 1).2 v →
        ((∃ der w', issuerAndSerial env raCert serial w = some (.ok der, w')) ↔
          issuer.length + 6 < 2 ^ 31 ∧ encIntegerContentLen serial + 6 < 2 ^ 31)) ∧
      (∀ csr v x issuer request subject, NamesIssuer env raCert issuer (env.alloc w 2).2 v →
        env.parseCert .certreqType csr v = (.ok request, x) → request.subjectRaw = some subject →
        ((∃ der w', issuerAndSubject env raCert csr w = some (.ok der, w')) ↔
          issuer.length + 6 < 2 ^ 31 ∧ subject.length + 6 < 2 ^ 31))) := by
  have unique : ∀ {issuer issuer' : Bytes} {u v v' : σ}, NamesIssuer env raCert issuer u v →
      NamesIssuer env raCert issuer' u v' → issuer = issuer' ∧ v = v' := by
    rintro issuer issuer' u v v' ⟨⟨ca, parsed, name⟩, -⟩ ⟨⟨ca', parsed', name'⟩, -⟩
    rw [parsed] at parsed'
    cases parsed'
    rw [name] at name'
    exact ⟨Option.some.inj name', rfl⟩
  refine ⟨?_, ?_, ?_, fun granted => ⟨?_, ?_⟩⟩
  · intro serial der w' run
    obtain ⟨filled, u, v, issuer, first, names, -, built⟩ := issuerAndSerial_iff.mp run
    rw [first]
    exact ⟨v, issuer, names, serialTrip filled built⟩
  · intro serial serial' der der' v v' run run'
    obtain ⟨filled, u, x, issuer, first, names, -, built⟩ := issuerAndSerial_iff.mp run
    obtain ⟨filled', u', x', issuer', first', names', -, built'⟩ := issuerAndSerial_iff.mp run'
    rw [first] at first'
    cases first'
    obtain ⟨rfl, -⟩ := unique names names'
    exact encIssuerAndSerial_eq_iff filled filled' built built'
  · intro csr der w' run
    obtain ⟨u, v, x, issuer, request, subject, first, names, parsed, raw, -, built⟩ :=
      issuerAndSubject_iff.mp run
    rw [first]
    exact ⟨v, x, issuer, request, subject, names, parsed, raw, parseIssuerAndSubject_enc built,
      encIssuerAndSubject_length built⟩
  · intro serial v issuer filled names
    rw [← encIssuerAndSerial_iff filled]
    constructor
    · rintro ⟨der, w', run⟩
      obtain ⟨-, u, v', issuer', first, names', -, built⟩ := issuerAndSerial_iff.mp run
      rw [first] at names
      obtain ⟨rfl, -⟩ := unique names names'
      exact ⟨der, built⟩
    · rintro ⟨der, built⟩
      exact ⟨der, _, issuerAndSerial_iff.mpr ⟨filled, _, v, issuer, Prod.ext (granted w 1) rfl, names,
        Prod.ext (granted v _) rfl, built⟩⟩
  · intro csr v x issuer request subject names parsed raw
    rw [← encIssuerAndSubject_iff]
    constructor
    · rintro ⟨der, w', run⟩
      obtain ⟨u, v', x', issuer', request', subject', first, names', parsed', raw', -, built⟩ :=
        issuerAndSubject_iff.mp run
      rw [first] at names
      obtain ⟨rfl, rfl⟩ := unique names names'
      rw [parsed] at parsed'
      cases parsed'
      rw [raw] at raw'
      cases raw'
      exact ⟨der, built⟩
    · rintro ⟨der, built⟩
      exact ⟨der, _, issuerAndSubject_iff.mpr ⟨_, v, x, issuer, request, subject,
        Prod.ext (granted w 2) rfl, names, parsed, raw, Prod.ext (granted x _) rfl, built⟩⟩

end Builders

end WolfCert.Scep
