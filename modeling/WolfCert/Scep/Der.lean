import WolfCert.CLib.Bytes

/-!
# DER elements

The encoder and the reader of `scep_msg.c`, and that the reader undoes the encoder.
-/

namespace WolfCert.Scep

open WolfCert.CLib

/-- The low byte of `n >> shift`. -/
def lowByte (n shift : Nat) : UInt8 := UInt8.ofNat (n / 2 ^ shift)

def derPutLen (cap n : Nat) : Option Bytes :=
  if n < 0x80 then if cap < 1 then none else some [lowByte n 0]
  else if n ≤ 0xFF then if cap < 2 then none else some [0x81, lowByte n 0]
  else if n ≤ 0xFFFF then if cap < 3 then none else some [0x82, lowByte n 8, lowByte n 0]
  else if n ≤ 0xFFFFFF then
    if cap < 4 then none else some [0x83, lowByte n 16, lowByte n 8, lowByte n 0]
  else if n / 2 ^ 32 ≠ 0 then none
  else if cap < 5 then none
  else some [0x84, lowByte n 24, lowByte n 16, lowByte n 8, lowByte n 0]

/-- An element under a tag, if it fits; `enc_seq` and `enc_octet` differ in the tag alone. -/
def encTlv (tag : UInt8) (v : Bytes) (cap : Nat) : Option Bytes :=
  if cap < 1 then none
  else
    match derPutLen (cap - 1) v.length with
    | none => none
    | some len => if 1 + len.length + v.length > cap then none else some (tag :: len ++ v)

def encSeq (v : Bytes) (cap : Nat) : Option Bytes := encTlv 0x30 v cap

def encOctet (v : Bytes) (cap : Nat) : Option Bytes := encTlv 0x04 v cap

/-- `wolfcert_scep_int_magnitude`: no leading zeros, though one byte always stays. -/
def intMagnitude : Bytes → Bytes
  | 0 :: b :: rest => intMagnitude (b :: rest)
  | v => v

/-- Whether a magnitude needs a zero in front to be read as positive. -/
def integerPad (v : Bytes) : Bytes := if charAt v &&& 0x80 ≠ 0 then [0] else []

def encIntegerContentLen (v : Bytes) : Nat :=
  if v = [] then 0 else (integerPad (intMagnitude v)).length + (intMagnitude v).length

def encInteger (v : Bytes) (cap : Nat) : Option Bytes :=
  if v = [] then none else encTlv 0x02 (integerPad (intMagnitude v) ++ intMagnitude v) cap

def encTlvLen (vl : Nat) : Nat :=
  match derPutLen 8 vl with
  | none => 0
  | some len => 1 + len.length + vl

def bigEndian (digits : Bytes) : Nat := digits.foldl (fun value b => value * 256 + b.toNat) 0

/-- The header size, the tag and the content length of the element at the front. -/
def derReadTlv : Bytes → Option (Nat × UInt8 × Nat)
  | tag :: first :: rest =>
      if first &&& 0x80 = 0 then
        if first.toNat > rest.length then none else some (2, tag, first.toNat)
      else
        let nb := (first &&& 0x7F).toNat
        if nb = 0 ∨ nb > 4 ∨ rest.length < nb then none
        else
          let clen := bigEndian (rest.take nb)
          if clen > rest.length - nb then none else some (2 + nb, tag, clen)
  | _ => none

theorem derReadTlv_le {input : Bytes} {hdr clen : Nat} {tag : UInt8}
    (read : derReadTlv input = some (hdr, tag, clen)) : 2 ≤ hdr ∧ hdr + clen ≤ input.length := by
  unfold derReadTlv at read
  split at read
  · dsimp only at read
    split at read
    · split at read
      · cases read
      · cases read
        simp only [List.length_cons]
        omega
    · split at read
      · cases read
      · split at read
        · cases read
        · cases read
          simp only [List.length_cons]
          omega
  · cases read

theorem short_first {n : Nat} (short : n < 128) : UInt8.ofNat n &&& 0x80 = 0 := by
  have all : ∀ k : Fin 128, UInt8.ofNat k.val &&& 0x80 = 0 := by decide
  exact all ⟨n, short⟩

@[simp] theorem lowByte_toNat (n shift : Nat) : (lowByte n shift).toNat = n / 2 ^ shift % 256 := by
  simp [lowByte]

/-- The reader finds what the length encoder wrote, whatever follows. -/
theorem derReadTlv_derPutLen {cap : Nat} {v len : Bytes} (put : derPutLen cap v.length = some len)
    (tag : UInt8) (rest : Bytes) :
    derReadTlv (tag :: len ++ v ++ rest) = some (1 + len.length, tag, v.length) := by
  have long : ∀ nb : Nat, ∀ first : UInt8, first &&& 0x80 ≠ 0 → (first &&& 0x7F).toNat = nb →
      0 < nb → nb ≤ 4 → ∀ digits : Bytes, digits.length = nb → bigEndian digits = v.length →
      len = first :: digits →
      derReadTlv (tag :: len ++ v ++ rest) = some (1 + len.length, tag, v.length) := by
    intro nb first high count positive small digits width value same
    subst same
    simp only [List.cons_append, List.append_assoc, derReadTlv, if_neg high, count]
    rw [if_neg (by simp only [List.length_append]; omega)]
    have taken : (digits ++ (v ++ rest)).take nb = digits := by rw [← width]; simp
    rw [taken, value, if_neg (by simp [width])]
    simp only [List.length_cons, width, Option.some.injEq, Prod.mk.injEq, and_true]
    omega
  unfold derPutLen at put
  split at put
  · rename_i short
    split at put
    · cases put
    · cases put
      have low : (lowByte v.length 0).toNat = v.length := by simp; omega
      have zero : lowByte v.length 0 &&& 0x80 = 0 := by
        unfold lowByte
        exact short_first (by simpa using short)
      simp only [List.cons_append, List.nil_append, derReadTlv, if_pos zero, low]
      rw [if_neg (by simp)]
      rfl
  · split at put
    · split at put
      · cases put
      · cases put
        refine long 1 0x81 (by decide) (by decide) (by decide) (by decide) _ rfl ?_ rfl
        simp [bigEndian]
        omega
    · split at put
      · split at put
        · cases put
        · cases put
          refine long 2 0x82 (by decide) (by decide) (by decide) (by decide) _ rfl ?_ rfl
          simp [bigEndian]
          omega
      · split at put
        · split at put
          · cases put
          · cases put
            refine long 3 0x83 (by decide) (by decide) (by decide) (by decide) _ rfl ?_ rfl
            simp [bigEndian]
            omega
        · split at put
          · cases put
          · rename_i bounded
            split at put
            · cases put
            · cases put
              refine long 4 0x84 (by decide) (by decide) (by decide) (by decide) _ rfl ?_ rfl
              simp [bigEndian]
              omega

/-- An encoded element is read back with its tag and content, whatever follows. -/
theorem derReadTlv_encTlv {tag : UInt8} {v encoded : Bytes} {cap : Nat}
    (put : encTlv tag v cap = some encoded) (rest : Bytes) :
    ∃ hdr, derReadTlv (encoded ++ rest) = some (hdr, tag, v.length) ∧
      encoded.length = hdr + v.length ∧ encoded.drop hdr = v := by
  unfold encTlv at put
  split at put
  · cases put
  · split at put
    · cases put
    · rename_i len written
      split at put
      · cases put
      · cases put
        refine ⟨1 + len.length, derReadTlv_derPutLen written tag rest, by simp; omega, ?_⟩
        rw [Nat.add_comm]
        simp

/-- A length that fits anywhere is written the same in eight bytes. -/
theorem derPutLen_eight {cap n : Nat} {len : Bytes} (put : derPutLen cap n = some len) :
    derPutLen 8 n = some len := by
  unfold derPutLen at put ⊢
  repeat' split at put
  all_goals cases put
  all_goals
    repeat' split
    all_goals first
      | rfl
      | omega

theorem encTlv_length {tag : UInt8} {v encoded : Bytes} {cap : Nat}
    (put : encTlv tag v cap = some encoded) : encoded.length = encTlvLen v.length := by
  unfold encTlv at put
  split at put
  · cases put
  · split at put
    · cases put
    · rename_i len written
      split at put
      · cases put
      · cases put
        simp only [encTlvLen, derPutLen_eight written, List.length_append, List.length_cons]
        omega

theorem intMagnitude_ne_nil {v : Bytes} (nonempty : v ≠ []) : intMagnitude v ≠ [] := by
  induction v using intMagnitude.induct with
  | case1 b rest ih =>
      simp only [intMagnitude]
      exact ih (by simp)
  | case2 v short =>
      rw [intMagnitude]
      · exact nonempty
      · exact short

theorem intMagnitude_idem (v : Bytes) : intMagnitude (intMagnitude v) = intMagnitude v := by
  induction v using intMagnitude.induct with
  | case1 b rest ih =>
      simp only [intMagnitude]
      exact ih
  | case2 v short =>
      have same : intMagnitude v = v := by
        rw [intMagnitude]
        exact short
      rw [same, same]

/-- The zero that keeps a magnitude positive is not part of it. -/
theorem intMagnitude_pad {v : Bytes} (nonempty : v ≠ []) :
    intMagnitude (integerPad (intMagnitude v) ++ intMagnitude v) = intMagnitude v := by
  unfold integerPad
  split
  · cases magnitude : intMagnitude v with
    | nil => exact absurd magnitude (intMagnitude_ne_nil nonempty)
    | cons b rest =>
        simp only [List.cons_append, List.nil_append, intMagnitude]
        rw [← magnitude, intMagnitude_idem]
  · simp [intMagnitude_idem]

/-- Split `SEQUENCE { issuer Name, element tagged want }`. -/
def parseIssuerAnd (want : UInt8) (der : Bytes) : Option (Bytes × Bytes) :=
  match derReadTlv der with
  | none => none
  | some (hdr, tag, clen) =>
      if tag ≠ 0x30 ∨ hdr + clen ≠ der.length then none
      else
        let p := der.drop hdr
        match derReadTlv p with
        | none => none
        | some (hdr, tag, clen) =>
            if tag ≠ 0x30 then none
            else
              let issuer := (p.drop hdr).take clen
              let p := p.drop (hdr + clen)
              match derReadTlv p with
              | none => none
              | some (hdr, tag, clen) =>
                  if tag ≠ want ∨ p.length ≠ hdr + clen then none
                  else some (issuer, (p.drop hdr).take clen)

def parseIssuerAndSerial (der : Bytes) : Option (Bytes × Bytes) :=
  match parseIssuerAnd 0x02 der with
  | none => none
  | some (issuer, serial) => if serial = [] then none else some (issuer, intMagnitude serial)

def parseIssuerAndSubject (der : Bytes) : Option (Bytes × Bytes) := parseIssuerAnd 0x30 der

/-- The size of an element is returned as an `int`; one it cannot hold comes out negative, an error. -/
def asInt (encoded : Option Bytes) : Option Bytes := encoded.filter fun element => element.length < 2 ^ 31

/-- `SEQUENCE { issuer, element }` in a buffer with eight bytes to spare, as both builders write it. -/
def encIssuerAnd (issuer : Bytes) (inner : Nat) (encode : Nat → Option Bytes) : Option Bytes :=
  match derPutLen (inner + 8 - 1) inner with
  | none => none
  | some len =>
      let cap := inner + 8 - (1 + len.length)
      match asInt (encSeq issuer cap) with
      | none => none
      | some first =>
          match asInt (encode (cap - first.length)) with
          | none => none
          | some second => some (0x30 :: len ++ first ++ second)

theorem asInt_some {encoded : Option Bytes} {element : Bytes} :
    asInt encoded = some element ↔ encoded = some element ∧ element.length < 2 ^ 31 := by
  simp [asInt, Option.filter_eq_some_iff]

/-- What was built around an issuer is split again, if its length was foretold rightly. -/
theorem parseIssuerAnd_encIssuerAnd {issuer der v : Bytes} {inner : Nat} {want : UInt8}
    {encode : Nat → Option Bytes} (built : encIssuerAnd issuer inner encode = some der)
    (element : ∀ cap second, encode cap = some second → encTlv want v cap = some second)
    (foretold : ∀ cap cap' first second, encSeq issuer cap = some first →
      encode cap' = some second → inner = first.length + second.length) :
    parseIssuerAnd want der = some (issuer, v) := by
  unfold encIssuerAnd at built
  split at built
  · cases built
  · rename_i len put
    dsimp only at built
    split at built
    · cases built
    · rename_i first fits
      split at built
      · cases built
      · rename_i second fits'
        cases built
        have encoded := (asInt_some.mp fits).1
        have encoded' := (asInt_some.mp fits').1
        have total := foretold _ _ _ _ encoded encoded'
        obtain ⟨hdr₁, read₁, size₁, drop₁⟩ := derReadTlv_encTlv encoded second
        obtain ⟨hdr₂, read₂, size₂, drop₂⟩ := derReadTlv_encTlv (element _ _ encoded') []
        have whole := derReadTlv_derPutLen (v := first ++ second)
          (by simpa [total] using put) 0x30 []
        simp only [List.append_nil] at whole read₂
        have dropped : (0x30 :: len ++ first ++ second).drop (1 + len.length) = first ++ second := by
          rw [Nat.add_comm]
          simp
        rw [← List.append_assoc] at whole
        have issuer' : ((first ++ second).drop hdr₁).take issuer.length = issuer := by
          rw [List.drop_append_of_le_length (by omega), drop₁]
          simp
        have second' : (first ++ second).drop (hdr₁ + issuer.length) = second := by
          rw [← size₁]
          simp
        simp only [parseIssuerAnd, whole, dropped, read₁, issuer', second', read₂, drop₂]
        simp [size₂]
        omega

/-- The IssuerAndSerial of an issuer name and a serial number. -/
def encIssuerAndSerial (issuer serial : Bytes) : Option Bytes :=
  encIssuerAnd issuer (encTlvLen issuer.length + encTlvLen (encIntegerContentLen serial))
    (encInteger serial)

/-- The IssuerAndSubject of two names. -/
def encIssuerAndSubject (issuer subject : Bytes) : Option Bytes :=
  encIssuerAnd issuer (encTlvLen issuer.length + encTlvLen subject.length) (encSeq subject)

theorem parseIssuerAndSerial_enc {issuer serial der : Bytes}
    (built : encIssuerAndSerial issuer serial = some der) (nonempty : serial ≠ []) :
    parseIssuerAndSerial der = some (issuer, intMagnitude serial) := by
  have element : ∀ cap second, encInteger serial cap = some second →
      encTlv 0x02 (integerPad (intMagnitude serial) ++ intMagnitude serial) cap = some second := by
    intro cap second put
    rwa [encInteger, if_neg nonempty] at put
  have split : parseIssuerAnd 0x02 der =
      some (issuer, integerPad (intMagnitude serial) ++ intMagnitude serial) := by
    refine parseIssuerAnd_encIssuerAnd built element fun cap cap' first second put put' => ?_
    rw [encTlv_length put, encTlv_length (element _ _ put')]
    simp [encIntegerContentLen, nonempty]
  simp [parseIssuerAndSerial, split, intMagnitude_ne_nil nonempty, intMagnitude_pad nonempty]

theorem parseIssuerAndSubject_enc {issuer subject der : Bytes}
    (built : encIssuerAndSubject issuer subject = some der) :
    parseIssuerAndSubject der = some (issuer, subject) := by
  refine parseIssuerAnd_encIssuerAnd built (fun _ _ put => put) fun cap cap' first second put put' => ?_
  rw [encTlv_length put, encTlv_length put']

end WolfCert.Scep
