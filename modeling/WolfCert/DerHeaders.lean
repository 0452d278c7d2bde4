import WolfCert.Est.CsrAttrsPolicy

/-!
# The header readers and the length writer, in machine words

`der_read_tlv`, `der_take_tl` and `csr__take_tl` are three readers of one format. Here their sizes are a
`size_t` of `w` bits, as the source computes them, and none of these computations wraps.
-/

namespace WolfCert

open WolfCert.CLib WolfCert.Scep WolfCert.Est

variable {w : Nat}

/-- A byte, widened. -/
def byteWord (w : Nat) (b : UInt8) : BitVec w := b.toBitVec.setWidth w

/-- `len = (len << 8) | p[i]` over some bytes. -/
def shiftIn (w : Nat) (digits : Bytes) : BitVec w :=
  digits.foldl (fun len b => (len <<< 8) ||| byteWord w b) 0

def derReadTlvWord (w : Nat) (input : Bytes) : Option (BitVec w × UInt8 × BitVec w) :=
  let len := BitVec.ofNat w input.length
  if len < 2 then none
  else if input.getD 1 0 &&& 0x80 = 0 then
    let hdr : BitVec w := 2
    let clen := byteWord w (input.getD 1 0)
    if clen > len - hdr then none else some (hdr, input.getD 0 0, clen)
  else
    let nb := byteWord w (input.getD 1 0 &&& 0x7F)
    if nb = 0 ∨ nb > 4 ∨ len < 2 + nb then none
    else
      let clen := shiftIn w ((input.drop 2).take nb.toNat)
      let hdr := 2 + nb
      if clen > len - hdr then none else some (hdr, input.getD 0 0, clen)

def derTakeTlWord (w : Nat) (p : Bytes) : Option (UInt8 × BitVec w × BitVec w) :=
  let avail := BitVec.ofNat w p.length
  if avail < 2 then none
  else
    let tag := p.getD 0 0
    if p.getD 1 0 &&& 0x80 = 0 then
      let len := byteWord w (p.getD 1 0)
      let hdr : BitVec w := 2
      if len > avail - hdr then none else some (tag, len, hdr)
    else
      let n := byteWord w (p.getD 1 0 &&& 0x7F)
      if n = 0 ∨ n > 4 ∨ 2 + n > avail then none
      else
        let len := shiftIn w ((p.drop 2).take n.toNat)
        let hdr := 2 + n
        if len > avail - hdr then none else some (tag, len, hdr)

def csrTakeTlWord (w : Nat) (p : Bytes) : Option (UInt8 × BitVec w × BitVec w) :=
  let avail := BitVec.ofNat w p.length
  if avail < 2 then none
  else
    let tag := p.getD 0 0
    if p.getD 1 0 &&& 0x80 = 0 then
      let l := byteWord w (p.getD 1 0)
      let h : BitVec w := 2
      if l > avail - h then none else some (tag, l, h)
    else
      let n := byteWord w (p.getD 1 0 &&& 0x7F)
      if n = 0 ∨ n > 4 ∨ 2 + n > avail then none
      else
        let l := shiftIn w ((p.drop 2).take n.toNat)
        let h := 2 + n
        if l > avail - h then none else some (tag, l, h)

/-- `(byte)(n >> shift)`. -/
def wordByte (n : BitVec w) (shift : Nat) : UInt8 := ⟨(n >>> shift).setWidth 8⟩

def derPutLenWord (cap n : BitVec w) : Option Bytes :=
  if n < 0x80 then if cap < 1 then none else some [wordByte n 0]
  else if n ≤ 0xFF then if cap < 2 then none else some [0x81, wordByte n 0]
  else if n ≤ 0xFFFF then if cap < 3 then none else some [0x82, wordByte n 8, wordByte n 0]
  else if n ≤ 0xFFFFFF then
    if cap < 4 then none else some [0x83, wordByte n 16, wordByte n 8, wordByte n 0]
  else if (n >>> 16) >>> 16 ≠ 0 then none
  else if cap < 5 then none
  else some [0x84, wordByte n 24, wordByte n 16, wordByte n 8, wordByte n 0]

/-! ## Nothing wraps -/

theorem byteWord_toNat (wide : 32 ≤ w) (b : UInt8) : (byteWord w b).toNat = b.toNat := by
  have room : b.toNat < 2 ^ w := Nat.lt_of_lt_of_le b.toNat_lt (Nat.pow_le_pow_right (by decide) (by omega))
  rw [byteWord, BitVec.toNat_setWidth]
  exact Nat.mod_eq_of_lt room

theorem byteWord_eq (w : Nat) (b : UInt8) : byteWord w b = BitVec.ofNat w b.toNat :=
  (BitVec.ofNat_toNat w b.toBitVec).symm

theorem literal_toNat (wide : 32 ≤ w) {k : Nat} (small : k < 2 ^ 32) : (BitVec.ofNat w k).toNat = k := by
  rw [BitVec.toNat_ofNat]
  exact Nat.mod_eq_of_lt (Nat.lt_of_lt_of_le small (Nat.pow_le_pow_right (by decide) wide))

/-- A shift by eight bits stays within the word, so that the byte goes into zeros. -/
theorem shiftIn_snoc_toNat {len : BitVec w} (wide : 32 ≤ w) (room : len.toNat < 2 ^ 24) (b : UInt8) :
    ((len <<< 8) ||| byteWord w b).toNat = len.toNat * 256 + b.toNat := by
  have shifted : len.toNat <<< 8 = len.toNat * 256 := Nat.shiftLeft_eq _ _
  have inside : len.toNat * 256 < 2 ^ w :=
    Nat.lt_of_lt_of_le (by omega) (Nat.pow_le_pow_right (by decide) wide)
  rw [BitVec.toNat_or, BitVec.toNat_shiftLeft, shifted, Nat.mod_eq_of_lt inside, byteWord_toNat wide,
    Nat.mul_comm, ← Nat.two_pow_add_eq_or_of_lt (i := 8) b.toNat_lt]

theorem shiftIn_toNat (wide : 32 ≤ w) {digits : Bytes} (few : digits.length ≤ 4) :
    (shiftIn w digits).toNat = bigEndian digits := by
  induction digits using List.reverseRecOn with
  | nil => simp [shiftIn, bigEndian]
  | append_singleton digits b ih =>
      rw [List.length_append, List.length_singleton] at few
      have before := ih (by omega)
      have bound := bigEndian_lt digits
      have room : 256 ^ digits.length ≤ 256 ^ 3 := Nat.pow_le_pow_right (by decide) (by omega)
      rw [shiftIn, List.foldl_append, List.foldl_cons, List.foldl_nil]
      change ((shiftIn w digits <<< 8) ||| byteWord w b).toNat = _
      rw [shiftIn_snoc_toNat wide (by omega), before]
      simp [bigEndian]

/-- The sizes of a header, as words. -/
def inWords (w : Nat) (header : Nat × UInt8 × Nat) : BitVec w × UInt8 × BitVec w :=
  (.ofNat w header.1, header.2.1, .ofNat w header.2.2)

theorem size_toNat {size : Nat} (small : size < 2 ^ w) : (BitVec.ofNat w size).toNat = size := by
  rw [BitVec.toNat_ofNat]
  exact Nat.mod_eq_of_lt small

/-- What is left of an input behind a header. -/
theorem remaining_toNat {size : Nat} {hdr : BitVec w} (small : size < 2 ^ w) (inside : hdr.toNat ≤ size) :
    (BitVec.ofNat w size - hdr).toNat = size - hdr.toNat := by
  have len := size_toNat small
  rw [BitVec.toNat_sub_of_le (BitVec.le_def.mpr (by omega)), len]

section Header

variable {size : Nat} (wide : 32 ≤ w) (small : size < 2 ^ w) (b : UInt8)

include wide

/-- The identifier, the first octet of the length and those that it counts. -/
theorem header_toNat : (2 + byteWord w b).toNat = 2 + b.toNat := by
  have byte : b.toNat < 256 := UInt8.toNat_lt _
  have room : 2 ^ 32 ≤ 2 ^ w := Nat.pow_le_pow_right (by decide) wide
  have two : (2 : BitVec w).toNat = 2 := literal_toNat wide (by decide)
  rw [BitVec.toNat_add, two, byteWord_toNat wide]
  exact Nat.mod_eq_of_lt (by omega)

include small

theorem no_header_iff : BitVec.ofNat w size < 2 ↔ size < 2 := by
  have two : (2 : BitVec w).toNat = 2 := literal_toNat wide (by decide)
  rw [BitVec.lt_def, size_toNat small, two]

theorem short_beyond_iff (header : 2 ≤ size) : byteWord w b > BitVec.ofNat w size - 2 ↔ b.toNat > size - 2 := by
  have two : (2 : BitVec w).toNat = 2 := literal_toNat wide (by decide)
  rw [gt_iff_lt, BitVec.lt_def, byteWord_toNat wide, remaining_toNat small (by omega), two]

theorem bad_count_iff :
    (byteWord w b = 0 ∨ byteWord w b > 4 ∨ BitVec.ofNat w size < 2 + byteWord w b) ↔
      (b.toNat = 0 ∨ b.toNat > 4 ∨ size < 2 + b.toNat) := by
  have four : (4 : BitVec w).toNat = 4 := literal_toNat wide (by decide)
  have zero : (0 : BitVec w).toNat = 0 := literal_toNat wide (by decide)
  rw [← BitVec.toNat_inj, gt_iff_lt, BitVec.lt_def, BitVec.lt_def, header_toNat wide, size_toNat small,
    byteWord_toNat wide, four, zero]

theorem long_beyond_iff {digits : Bytes} (few : digits.length ≤ 4) (inside : 2 + b.toNat ≤ size) :
    shiftIn w digits > BitVec.ofNat w size - (2 + byteWord w b) ↔
      bigEndian digits > size - (2 + b.toNat) := by
  have header := header_toNat wide b
  rw [gt_iff_lt, BitVec.lt_def, shiftIn_toNat wide few, remaining_toNat small (by omega), header]

end Header

theorem derReadTlvWord_eq (wide : 32 ≤ w) {input : Bytes} (small : input.length < 2 ^ w) :
    derReadTlvWord w input = (derReadTlv input).map (inWords w) := by
  have short := no_header_iff wide small
  rcases input with _ | ⟨tag, _ | ⟨first, rest⟩⟩
  · rw [derReadTlvWord, if_pos (short.mpr (by simp))]
    rfl
  · rw [derReadTlvWord, if_pos (short.mpr (by simp))]
    rfl
  · have long : ¬BitVec.ofNat w (tag :: first :: rest).length < 2 := fun less => by
      have := short.mp less
      simp at this
    simp only [derReadTlvWord, derReadTlv, if_neg long, List.getD_cons_succ, List.getD_cons_zero,
      List.drop_succ_cons, List.drop_zero]
    have size : (tag :: first :: rest).length = 2 + rest.length := by
      simp only [List.length_cons]
      omega
    rw [size] at small ⊢
    by_cases low : first &&& 0x80 = 0
    · simp only [if_pos low, short_beyond_iff wide small first (by omega), Nat.add_sub_cancel_left]
      split
      · rfl
      · rw [byteWord_eq]
        rfl
    · generalize first &&& 0x7F = n
      simp only [if_neg low, bad_count_iff wide small, Nat.add_lt_add_iff_left, byteWord_toNat wide]
      by_cases counted : n.toNat = 0 ∨ n.toNat > 4 ∨ rest.length < n.toNat
      · rw [if_pos counted, if_pos counted]
        rfl
      · rw [if_neg counted, if_neg counted]
        have few : (rest.take n.toNat).length ≤ 4 := by
          rw [List.length_take]
          omega
        simp only [long_beyond_iff wide small n few (by omega), Nat.add_sub_add_left]
        split
        · rfl
        · have header := header_toNat wide n
          have value := shiftIn_toNat wide few
          simp only [Option.map_some, inWords, Option.some.injEq, Prod.mk.injEq, true_and]
          exact ⟨BitVec.eq_of_toNat_eq (by rw [header, literal_toNat wide (by omega)]),
            BitVec.eq_of_toNat_eq (by rw [value, BitVec.toNat_ofNat, ← value, Nat.mod_eq_of_lt (BitVec.isLt _)])⟩

theorem derTakeTlWord_eq (w : Nat) (p : Bytes) :
    derTakeTlWord w p = (derReadTlvWord w p).map fun (hdr, tag, len) => (tag, len, hdr) := by
  simp only [derTakeTlWord, derReadTlvWord, gt_iff_lt]
  split
  · rfl
  · split
    · split <;> rfl
    · split
      · rfl
      · split <;> rfl

theorem csrTakeTlWord_eq (w : Nat) (p : Bytes) : csrTakeTlWord w p = derTakeTlWord w p := rfl

theorem wordByte_eq (n : BitVec w) (shift : Nat) : wordByte n shift = lowByte n.toNat shift := by
  apply UInt8.toNat_inj.mp
  rw [lowByte_toNat]
  change ((n >>> shift).setWidth 8).toNat = _
  rw [BitVec.toNat_setWidth, BitVec.toNat_ushiftRight, Nat.shiftRight_eq_div_pow]

theorem derPutLenWord_eq (wide : 32 ≤ w) (cap n : BitVec w) :
    derPutLenWord cap n = derPutLen cap.toNat n.toNat := by
  have zero : (0 : BitVec w).toNat = 0 := literal_toNat wide (by decide)
  have high : (n >>> 16) >>> 16 ≠ 0#w ↔ n.toNat / 2 ^ 32 ≠ 0 := by
    rw [ne_eq, ← BitVec.toNat_inj, BitVec.toNat_ushiftRight, BitVec.toNat_ushiftRight,
      Nat.shiftRight_eq_div_pow, Nat.shiftRight_eq_div_pow, Nat.div_div_eq_div_mul]
    exact not_congr (by rw [BitVec.toNat_zero, ← Nat.pow_add])
  simp only [derPutLenWord, derPutLen, wordByte_eq, BitVec.lt_def, BitVec.le_def, BitVec.ofNat_eq_ofNat,
    high]
  simp (disch := decide) only [literal_toNat wide]

/-! ## The shortest length -/

/-- The octets of a definite length by X.690: below 128 the length itself, or the number of its digits,
126 at most, and these. -/
inductive X690Length : Nat → Bytes → Prop where
  | short {n : Nat} (small : n < 128) : X690Length n [UInt8.ofNat n]
  | long {digits : Bytes} (filled : digits ≠ []) (few : digits.length ≤ 126) :
      X690Length (bigEndian digits) (UInt8.ofNat (128 + digits.length) :: digits)

/-- The octets that DER asks for. -/
def ShortestLength (n : Nat) (octets : Bytes) : Prop :=
  X690Length n octets ∧ ∀ other, X690Length n other → octets.length ≤ other.length

theorem derPutLen_shortest {cap n : Nat} {len : Bytes} (put : derPutLen cap n = some len) :
    ShortestLength n len := by
  have own := derPutLen_octets put
  refine ⟨?_, fun other octets => ?_⟩
  · cases own with
    | short small => exact .short small
    | long filled few => exact .long filled (by omega)
  · cases octets with
    | short small => exact derPutLen_le put (.short small)
    | long filled few =>
        rename_i digits
        by_cases within : digits.length ≤ 4
        · exact derPutLen_le put (.long filled within)
        · obtain ⟨fitting, five, -, fits⟩ := derPutLen_fits own.lt
          have same := fits 8 (by omega)
          rw [derPutLen_eight put] at same
          cases same
          simp only [List.length_cons]
          omega

theorem derPutLen_room {cap n : Nat} {len : Bytes} (put : derPutLen cap n = some len) :
    len.length ≤ cap := by
  unfold derPutLen at put
  repeat' split at put
  all_goals cases put
  all_goals
    simp only [List.length_cons, List.length_nil]
    omega

/-- The length writer says none only for want of room, or of a fourth digit. -/
theorem derPutLen_eq {n : Nat} (small : n < 2 ^ 32) : ∃ octets, ShortestLength n octets ∧
    ∀ cap, derPutLen cap n = if octets.length ≤ cap then some octets else none := by
  obtain ⟨octets, five, -, fits⟩ := derPutLen_fits small
  have own := fits 8 (by omega)
  refine ⟨octets, derPutLen_shortest own, fun cap => ?_⟩
  split
  · rename_i room
    exact fits cap room
  · rename_i scant
    cases put : derPutLen cap n with
    | none => rfl
    | some len =>
        have same := derPutLen_eight put
        rw [own] at same
        cases same
        exact absurd (derPutLen_room put) scant

/-- The three readers take the same inputs and find the same header in them, which with its content ends
inside the input. For a length of 32 bits the writer gives its shortest octets wherever they fit, and a
reader finds that length behind any tag; for another one it gives none. -/
theorem der_headers_agree (wide : 32 ≤ w) :
    (∀ p : Bytes, p.length < 2 ^ w →
      csrTakeTlWord w p = derTakeTlWord w p ∧
      derReadTlvWord w p = (derTakeTlWord w p).map (fun (tag, len, hdr) => (hdr, tag, len)) ∧
      ∀ tag len hdr, derTakeTlWord w p = some (tag, len, hdr) → hdr.toNat + len.toNat ≤ p.length) ∧
    (∀ n : BitVec w, n.toNat < 2 ^ 32 → ∃ octets, ShortestLength n.toNat octets ∧
      (∀ cap, derPutLenWord cap n = if octets.length ≤ cap.toNat then some octets else none) ∧
      ∀ (tag : UInt8) (content rest : Bytes), content.length = n.toNat →
        (tag :: octets ++ content ++ rest).length < 2 ^ w →
        derReadTlvWord w (tag :: octets ++ content ++ rest) = some (.ofNat w (1 + octets.length), tag, n)) ∧
    (∀ n : BitVec w, 2 ^ 32 ≤ n.toNat → ∀ cap, derPutLenWord cap n = none) := by
  refine ⟨fun p small => ⟨csrTakeTlWord_eq w p, ?_, fun tag len hdr taken => ?_⟩, fun n small => ?_, ?_⟩
  · rw [derTakeTlWord_eq]
    cases derReadTlvWord w p <;> rfl
  · rw [derTakeTlWord_eq, derReadTlvWord_eq wide small, Option.map_map, Option.map_eq_some_iff] at taken
    obtain ⟨⟨hdr', tag', clen⟩, read, same⟩ := taken
    cases same
    have inside := derReadTlv_le read
    have hdrLe : hdr' % 2 ^ w ≤ hdr' := Nat.mod_le _ _
    have lenLe : clen % 2 ^ w ≤ clen := Nat.mod_le _ _
    simp only [BitVec.toNat_ofNat]
    omega
  · obtain ⟨octets, shortest, put⟩ := derPutLen_eq small
    refine ⟨octets, shortest, fun cap => by rw [derPutLenWord_eq wide, put], ?_⟩
    intro tag content rest size fits
    have written : derPutLen octets.length content.length = some octets := by
      rw [size, put, if_pos (Nat.le_refl _)]
    rw [derReadTlvWord_eq wide fits, derReadTlv_derPutLen written]
    simp [inWords, size]
  · intro n large cap
    rw [derPutLenWord_eq wide]
    cases put : derPutLen cap.toNat n.toNat with
    | none => rfl
    | some len =>
        have bound := (derPutLen_octets put).lt
        omega

theorem der_headers_agree_sixty_four :
    32 ≤ 64 ∧ csrTakeTlWord 64 [4, 1, 170, 0] = some (4, 1, 2) ∧
      derPutLenWord 3 (300 : BitVec 64) = some [0x82, 1, 44] ∧
      derPutLenWord 2 (300 : BitVec 64) = none ∧
      ∃ octets, ShortestLength 300 octets ∧ octets = [0x82, 1, 44] := by
  obtain ⟨readers, writer, -⟩ := der_headers_agree (w := 64) (by decide)
  obtain ⟨octets, shortest, put, -⟩ := writer 300 (by decide)
  have written : derPutLenWord 3 (300 : BitVec 64) = some [0x82, 1, 44] := by decide
  refine ⟨by decide, (readers [4, 1, 170, 0] (by decide)).1.trans (by decide), written, by decide, octets,
    shortest, ?_⟩
  rw [put] at written
  split at written
  · cases written
    rfl
  · cases written

end WolfCert
