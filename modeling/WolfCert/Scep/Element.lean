import Mathlib.Data.Nat.Digits.Lemmas
import WolfCert.Asn

/-!
# Elements with any definite length

What `der_read_tlv` accepts, said of the bytes and not of the reader: a tag, a length in one of its
forms, and that much content. The lengths need not be minimal.
-/

namespace WolfCert.Scep

open WolfCert.CLib

/-- The octets of a length: the length itself below 128, or how many digits it has and these. -/
inductive LengthOctets : Nat → Bytes → Prop where
  | short {n : Nat} (small : n < 128) : LengthOctets n [UInt8.ofNat n]
  | long {digits : Bytes} (filled : digits ≠ []) (few : digits.length ≤ 4) :
      LengthOctets (bigEndian digits) (UInt8.ofNat (128 + digits.length) :: digits)

/-- `bytes` are one element with that tag and content. -/
def IsElement (tag : UInt8) (content bytes : Bytes) : Prop :=
  ∃ len, LengthOctets content.length len ∧ bytes = tag :: (len ++ content)

theorem IsElement.length_pos {tag : UInt8} {content bytes : Bytes} (element : IsElement tag content bytes) :
    0 < bytes.length := by
  obtain ⟨len, -, rfl⟩ := element
  simp

theorem long_first {n : Nat} (few : n ≤ 4) :
    UInt8.ofNat (128 + n) &&& 0x80 ≠ 0 ∧ (UInt8.ofNat (128 + n) &&& 0x7F).toNat = n := by
  have all : ∀ k : Fin 5, UInt8.ofNat (128 + k.val) &&& 0x80 ≠ 0 ∧
      (UInt8.ofNat (128 + k.val) &&& 0x7F).toNat = k.val := by decide
  exact all ⟨n, by omega⟩

theorem first_octet (b : UInt8) :
    (b &&& 0x80 = 0 → b.toNat < 128) ∧ (b &&& 0x80 ≠ 0 → b.toNat = 128 + (b &&& 0x7F).toNat) := by
  have all : ∀ k : Fin 256, (UInt8.ofNat k.val &&& 0x80 = 0 → (UInt8.ofNat k.val).toNat < 128) ∧
      (UInt8.ofNat k.val &&& 0x80 ≠ 0 →
        (UInt8.ofNat k.val).toNat = 128 + (UInt8.ofNat k.val &&& 0x7F).toNat) := by
    decide +kernel
  have here := all ⟨b.toNat, b.toNat_lt⟩
  rwa [UInt8.ofNat_toNat] at here

theorem derReadTlv_length {n : Nat} {len content : Bytes} (octets : LengthOctets n len)
    (size : content.length = n) (tag : UInt8) (rest : Bytes) :
    derReadTlv (tag :: (len ++ content) ++ rest) = some (1 + len.length, tag, n) := by
  cases octets with
  | short small =>
      have low : (UInt8.ofNat n).toNat = n := by
        rw [UInt8.toNat_ofNat']
        omega
      simp only [List.cons_append, List.nil_append, derReadTlv, if_pos (short_first small), low]
      rw [if_neg (by simp [size])]
      rfl
  | long filled few =>
      rename_i digits
      obtain ⟨high, count⟩ := long_first few
      have positive := List.length_pos_iff.mpr filled
      simp only [List.cons_append, List.append_assoc, derReadTlv, if_neg high, count]
      rw [if_neg (by simp only [List.length_append]; omega), List.take_left,
        if_neg (by simp [size])]
      simp only [List.length_cons, Option.some.injEq, Prod.mk.injEq, and_true]
      omega

/-- An element is read, whatever follows it. -/
theorem derReadTlv_element {tag : UInt8} {content bytes : Bytes} (element : IsElement tag content bytes)
    (rest : Bytes) : ∃ hdr, derReadTlv (bytes ++ rest) = some (hdr, tag, content.length) ∧
      bytes.length = hdr + content.length ∧ bytes.drop hdr = content := by
  obtain ⟨len, octets, rfl⟩ := element
  refine ⟨1 + len.length, derReadTlv_length octets rfl tag rest, by simp; omega, ?_⟩
  rw [Nat.add_comm, List.drop_succ_cons, List.drop_left]

/-- What is read is an element at the front of the input. -/
theorem derReadTlv_sound {input : Bytes} {hdr clen : Nat} {tag : UInt8}
    (read : derReadTlv input = some (hdr, tag, clen)) :
    ∃ bytes rest, IsElement tag ((input.drop hdr).take clen) bytes ∧ input = bytes ++ rest ∧
      ((input.drop hdr).take clen).length = clen ∧ bytes.length = hdr + clen ∧
      rest = input.drop (hdr + clen) := by
  have bounds := derReadTlv_le read
  have content : ((input.drop hdr).take clen).length = clen := by
    rw [List.length_take, List.length_drop]
    omega
  refine ⟨input.take (hdr + clen), input.drop (hdr + clen), ?_, (List.take_append_drop _ _).symm,
    content, List.length_take_of_le bounds.2, rfl⟩
  unfold derReadTlv at read
  split at read
  · rename_i found first rest
    dsimp only at read
    split at read
    · rename_i low
      split at read
      · cases read
      · cases read
        refine ⟨[first], ?_, ?_⟩
        · rw [content]
          have octet := LengthOctets.short ((first_octet first).1 low)
          rwa [UInt8.ofNat_toNat] at octet
        · rw [Nat.add_comm]
          rfl
    · rename_i high
      split at read
      · cases read
      · rename_i counted
        split at read
        · cases read
        · simp only [Option.some.injEq, Prod.mk.injEq] at read
          obtain ⟨rfl, rfl, rfl⟩ := read
          rw [not_or, not_or] at counted
          have width : (rest.take (first &&& 0x7F).toNat).length = (first &&& 0x7F).toNat :=
            List.length_take_of_le (by omega)
          have lead : UInt8.ofNat (128 + (rest.take (first &&& 0x7F).toNat).length) = first := by
            rw [width, ← (first_octet first).2 high, UInt8.ofNat_toNat]
          refine ⟨first :: rest.take (first &&& 0x7F).toNat, ?_, ?_⟩
          · rw [content]
            have filled : rest.take (first &&& 0x7F).toNat ≠ [] := List.ne_nil_of_length_pos (by omega)
            have octets := LengthOctets.long filled (by omega)
            rwa [lead] at octets
          · have split : 2 + (first &&& 0x7F).toNat + bigEndian (rest.take (first &&& 0x7F).toNat) =
                (first &&& 0x7F).toNat + bigEndian (rest.take (first &&& 0x7F).toNat) + 1 + 1 := by
              omega
            rw [split, Nat.add_comm 2, List.take_succ_cons, List.take_succ_cons, List.drop_succ_cons,
              List.drop_succ_cons, List.take_add]
            rfl
  · cases read

/-- One element only is at the front of an input. -/
theorem IsElement.front_unique {tag tag' : UInt8} {content content' bytes bytes' rest rest' : Bytes}
    (one : IsElement tag content bytes) (other : IsElement tag' content' bytes')
    (same : bytes ++ rest = bytes' ++ rest') :
    tag = tag' ∧ content = content' ∧ bytes = bytes' ∧ rest = rest' := by
  obtain ⟨hdr, read, size, split⟩ := derReadTlv_element one rest
  obtain ⟨hdr', read', size', split'⟩ := derReadTlv_element other rest'
  rw [same, read'] at read
  simp only [Option.some.injEq, Prod.mk.injEq] at read
  obtain ⟨rfl, rfl, length⟩ := read
  obtain ⟨rfl, rfl⟩ := List.append_inj same (by omega)
  exact ⟨rfl, split.symm.trans split', rfl, rfl⟩

theorem derPutLen_octets {cap n : Nat} {len : Bytes} (put : derPutLen cap n = some len) :
    LengthOctets n len := by
  have long : ∀ (first : UInt8) (digits : Bytes), digits ≠ [] → digits.length ≤ 4 →
      first = UInt8.ofNat (128 + digits.length) → bigEndian digits = n →
      LengthOctets n (first :: digits) := by
    rintro first digits filled few rfl rfl
    exact .long filled few
  unfold derPutLen at put
  split at put
  · rename_i small
    split at put
    · cases put
    · cases put
      have octet := LengthOctets.short small
      rwa [show UInt8.ofNat n = lowByte n 0 by simp [lowByte]] at octet
  · repeat' split at put
    all_goals cases put
    all_goals
      refine long _ _ ?_ ?_ rfl ?_
      · simp
      · simp
      · simp [bigEndian]
        omega

/-- What the encoder writes is an element. -/
theorem encTlv_element {tag : UInt8} {v encoded : Bytes} {cap : Nat}
    (put : encTlv tag v cap = some encoded) : IsElement tag v encoded := by
  obtain ⟨len, rfl, written⟩ := IsTlv.cons ⟨cap, put⟩
  exact ⟨len, derPutLen_octets written, rfl⟩

/-! ## Minimal lengths -/

theorem bigEndian_ofDigits (v : Bytes) : bigEndian v = Nat.ofDigits 256 (v.reverse.map UInt8.toNat) := by
  rw [Nat.ofDigits_eq_foldr, List.foldr_map, List.foldr_reverse]
  unfold bigEndian
  congr 1
  funext value b
  simp [Nat.mul_comm, Nat.add_comm]

theorem bigEndian_lt (v : Bytes) : bigEndian v < 256 ^ v.length := by
  rw [bigEndian_ofDigits]
  have bound := Nat.ofDigits_lt_base_pow_length (b := 256) (l := v.reverse.map UInt8.toNat) (by decide)
    (by
      intro digit inside
      obtain ⟨b, -, rfl⟩ := List.mem_map.mp inside
      exact b.toNat_lt)
  simpa using bound

/-- The octets of a length that are the fewest. -/
def MinimalLength (n : Nat) (octets : Bytes) : Prop :=
  LengthOctets n octets ∧ ∀ other, LengthOctets n other → octets.length ≤ other.length

/-- A length has one encoding of each size. -/
theorem LengthOctets.unique {n : Nat} {octets other : Bytes} (one : LengthOctets n octets)
    (two : LengthOctets n other) (size : octets.length = other.length) : octets = other := by
  cases one with
  | short small =>
      cases two with
      | short _ => rfl
      | long filled few =>
          have positive := List.length_pos_iff.mpr filled
          simp only [List.length_cons, List.length_nil] at size
          omega
  | long filled few =>
      rename_i digits
      generalize value : bigEndian digits = n at two
      cases two with
      | short small =>
          have positive := List.length_pos_iff.mpr filled
          simp only [List.length_cons, List.length_nil] at size
          omega
      | long filled' few' =>
          rename_i digits'
          have width : digits.length = digits'.length := by simpa using size
          rw [bigEndian_ofDigits, bigEndian_ofDigits] at value
          have bytes : digits.reverse.map UInt8.toNat = digits'.reverse.map UInt8.toNat :=
            Nat.ofDigits_inj_of_len_eq (b := 256) (by decide) (by simp [width])
            (fun _ inside => by
              obtain ⟨b, -, rfl⟩ := List.mem_map.mp inside
              exact b.toNat_lt)
            (fun _ inside => by
              obtain ⟨b, -, rfl⟩ := List.mem_map.mp inside
              exact b.toNat_lt) value
          have same : digits.reverse = digits'.reverse :=
            List.map_injective_iff.mpr (fun a b equal => UInt8.toNat_inj.mp equal) bytes
          rw [List.reverse_injective same]

/-- The length encoder takes the fewest octets. -/
theorem derPutLen_le {cap n : Nat} {len octets : Bytes} (put : derPutLen cap n = some len)
    (other : LengthOctets n octets) : len.length ≤ octets.length := by
  cases other with
  | short small =>
      rw [derPutLen, if_pos small] at put
      split at put
      · cases put
      · cases put
        simp
  | long filled few =>
      rename_i digits
      have positive := List.length_pos_iff.mpr filled
      have bound := bigEndian_lt digits
      have width : digits.length = 1 ∨ digits.length = 2 ∨ digits.length = 3 ∨ digits.length = 4 := by omega
      unfold derPutLen at put
      rcases width with size | size | size | size <;> rw [size] at bound <;>
        · repeat' split at put
          all_goals cases put
          all_goals
            simp only [List.length_cons, List.length_nil, size]
            omega

/-- A length below 2^32 has its octets, and they go wherever there is room for them. -/
theorem derPutLen_fits {n : Nat} (small : n < 2 ^ 32) :
    ∃ len, len.length ≤ 5 ∧ (n < 2 ^ 24 ∨ len.length = 5) ∧
      ∀ cap, len.length ≤ cap → derPutLen cap n = some len := by
  have fits : ∀ len : Bytes, (∀ cap, len.length ≤ cap → derPutLen cap n = some len) → len.length ≤ 5 →
      (n < 2 ^ 24 ∨ len.length = 5) → ∃ len, len.length ≤ 5 ∧ (n < 2 ^ 24 ∨ len.length = 5) ∧
        ∀ cap, len.length ≤ cap → derPutLen cap n = some len :=
    fun len put few wide => ⟨len, few, wide, put⟩
  by_cases one : n < 0x80
  · refine fits [lowByte n 0] (fun cap room => ?_) (by simp) (.inl (by omega))
    simp only [List.length_cons, List.length_nil] at room
    rw [derPutLen, if_pos one, if_neg (by omega)]
  · by_cases two : n ≤ 0xFF
    · refine fits [0x81, lowByte n 0] (fun cap room => ?_) (by simp) (.inl (by omega))
      simp only [List.length_cons, List.length_nil] at room
      rw [derPutLen, if_neg one, if_pos two, if_neg (by omega)]
    · by_cases three : n ≤ 0xFFFF
      · refine fits [0x82, lowByte n 8, lowByte n 0] (fun cap room => ?_) (by simp) (.inl (by omega))
        simp only [List.length_cons, List.length_nil] at room
        rw [derPutLen, if_neg one, if_neg two, if_pos three, if_neg (by omega)]
      · by_cases four : n ≤ 0xFFFFFF
        · refine fits [0x83, lowByte n 16, lowByte n 8, lowByte n 0] (fun cap room => ?_) (by simp)
            (.inl (by omega))
          simp only [List.length_cons, List.length_nil] at room
          rw [derPutLen, if_neg one, if_neg two, if_neg three, if_pos four, if_neg (by omega)]
        · refine fits [0x84, lowByte n 24, lowByte n 16, lowByte n 8, lowByte n 0] (fun cap room => ?_)
            (by simp) (.inr rfl)
          simp only [List.length_cons, List.length_nil] at room
          rw [derPutLen, if_neg one, if_neg two, if_neg three, if_neg four, if_neg (by omega),
            if_neg (by omega)]

theorem minimalLength_iff {n : Nat} {octets : Bytes} (small : n < 2 ^ 32) :
    MinimalLength n octets ↔ derPutLen 8 n = some octets := by
  constructor
  · rintro ⟨own, fewest⟩
    obtain ⟨len, few, -, put⟩ := derPutLen_fits small
    have here := put 8 (by omega)
    have written := derPutLen_octets here
    rw [here, written.unique own (Nat.le_antisymm (derPutLen_le here own) (fewest len written))]
  · intro put
    exact ⟨derPutLen_octets put, fun other => derPutLen_le put⟩

theorem LengthOctets.lt {n : Nat} {octets : Bytes} (own : LengthOctets n octets) : n < 2 ^ 32 := by
  cases own with
  | short small => omega
  | long filled few =>
      rename_i digits
      calc bigEndian digits < 256 ^ digits.length := bigEndian_lt digits
        _ ≤ 256 ^ 4 := Nat.pow_le_pow_right (by decide) few

theorem derPutLen_mono {cap n m : Nat} {len len' : Bytes} (put : derPutLen cap n = some len)
    (put' : derPutLen cap m = some len') (le : n ≤ m) : len.length ≤ len'.length := by
  have size : ∀ {k : Nat} {octets : Bytes}, derPutLen cap k = some octets → octets.length =
      if k < 0x80 then 1 else if k ≤ 0xFF then 2 else if k ≤ 0xFFFF then 3 else if k ≤ 0xFFFFFF then 4 else 5 := by
    intro k octets written
    unfold derPutLen at written
    repeat' split at written
    all_goals cases written
    all_goals simp [*]
  rw [size put, size put']
  repeat' split
  all_goals omega

/-- The elements that the encoder writes are those with the fewest length octets. -/
theorem isTlv_iff {tag : UInt8} {content encoded : Bytes} : IsTlv tag content encoded ↔
    ∃ octets, MinimalLength content.length octets ∧ encoded = tag :: octets ++ content := by
  constructor
  · intro tlv
    obtain ⟨len, shape, put⟩ := tlv.cons
    exact ⟨len, (minimalLength_iff (derPutLen_octets put).lt).mpr put, shape⟩
  · rintro ⟨octets, least, rfl⟩
    obtain ⟨len, few, -, put⟩ := derPutLen_fits least.1.lt
    have same := (minimalLength_iff least.1.lt).mp least
    rw [put 8 (by omega)] at same
    cases same
    refine ⟨1 + octets.length + content.length, ?_⟩
    rw [encTlv, if_neg (by omega), put _ (by omega)]
    dsimp only
    rw [if_neg (by omega)]

end WolfCert.Scep

namespace WolfCert

open WolfCert.CLib WolfCert.Scep

theorem IsTlv.element {tag : UInt8} {content encoded : Bytes} (tlv : IsTlv tag content encoded) :
    IsElement tag content encoded := by
  obtain ⟨cap, put⟩ := tlv
  exact encTlv_element put

theorem IsTlv.filled {tag : UInt8} {content encoded : Bytes} (tlv : IsTlv tag content encoded) :
    encoded ≠ [] := by
  obtain ⟨len, rfl, -⟩ := tlv.cons
  simp

theorem IsTlv.unique {tag : UInt8} {content encoded encoded' : Bytes} (tlv : IsTlv tag content encoded)
    (tlv' : IsTlv tag content encoded') : encoded = encoded' := by
  obtain ⟨len, rfl, put⟩ := tlv.cons
  obtain ⟨len', rfl, put'⟩ := tlv'.cons
  rw [put] at put'
  cases put'
  rfl

end WolfCert
