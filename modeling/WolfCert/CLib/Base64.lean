import WolfCert.CLib.Bytes

/-!
# Base64

Three bytes as four characters, with padding, and back.
-/

namespace WolfCert.CLib.Base64

def digit (n : Nat) : UInt8 :=
  if n < 26 then UInt8.ofNat (65 + n)
  else if n < 52 then UInt8.ofNat (71 + n)
  else if n < 62 then UInt8.ofNat (n - 4)
  else if n = 62 then 43
  else 47

def value (c : UInt8) : Nat :=
  if 65 ≤ c ∧ c ≤ 90 then c.toNat - 65
  else if 97 ≤ c ∧ c ≤ 122 then c.toNat - 71
  else if 48 ≤ c ∧ c ≤ 57 then c.toNat + 4
  else if c = 43 then 62
  else 63

def pad : UInt8 := 61

/-- The characters of an encoding. -/
def IsChar (c : UInt8) : Prop := c = pad ∨ ∃ n, n < 64 ∧ c = digit n

def encode : Bytes → Bytes
  | a :: b :: c :: rest =>
      digit (a.toNat / 4) :: digit (a.toNat % 4 * 16 + b.toNat / 16) ::
        digit (b.toNat % 16 * 4 + c.toNat / 64) :: digit (c.toNat % 64) :: encode rest
  | [a, b] =>
      [digit (a.toNat / 4), digit (a.toNat % 4 * 16 + b.toNat / 16), digit (b.toNat % 16 * 4), pad]
  | [a] => [digit (a.toNat / 4), digit (a.toNat % 4 * 16), pad, pad]
  | [] => []

/-- The decoder of well-formed encodings. -/
def decode : Bytes → Bytes
  | p :: q :: r :: s :: rest =>
      let first := UInt8.ofNat (value p * 4 + value q / 16)
      let second := UInt8.ofNat (value q % 16 * 16 + value r / 4)
      let third := UInt8.ofNat (value r % 4 * 64 + value s)
      if r = pad then [first]
      else if s = pad then [first, second]
      else first :: second :: third :: decode rest
  | _ => []

theorem value_digit {n : Nat} (small : n < 64) : value (digit n) = n := by
  have all : ∀ k : Fin 64, value (digit k.val) = k.val := by decide
  exact all ⟨n, small⟩

theorem digit_ne_pad {n : Nat} (small : n < 64) : digit n ≠ pad := by
  have all : ∀ k : Fin 64, digit k.val ≠ pad := by decide
  exact all ⟨n, small⟩

theorem ofNat_toNat {a : UInt8} {n : Nat} (same : n = a.toNat) : UInt8.ofNat n = a := by
  rw [same, UInt8.ofNat_toNat]

theorem decode_encode (input : Bytes) : decode (encode input) = input := by
  induction input using encode.induct with
  | case1 a b c rest ih =>
      have := a.toNat_lt
      have := b.toNat_lt
      have := c.toNat_lt
      simp only [encode, decode]
      rw [if_neg (digit_ne_pad (by omega)), if_neg (digit_ne_pad (by omega)),
        value_digit (by omega), value_digit (by omega), value_digit (by omega), value_digit (by omega), ih]
      rw [ofNat_toNat (a := a) (by omega), ofNat_toNat (a := b) (by omega), ofNat_toNat (a := c) (by omega)]
  | case2 a b =>
      have := a.toNat_lt
      have := b.toNat_lt
      simp only [encode, decode, if_true]
      rw [if_neg (digit_ne_pad (by omega)), value_digit (by omega), value_digit (by omega),
        value_digit (by omega), ofNat_toNat (a := a) (by omega), ofNat_toNat (a := b) (by omega)]
  | case3 a =>
      have := a.toNat_lt
      simp only [encode, decode, if_true]
      rw [value_digit (by omega), value_digit (by omega), ofNat_toNat (a := a) (by omega)]
  | case4 => rfl

theorem encode_injective {a b : Bytes} (same : encode a = encode b) : a = b := by
  rw [← decode_encode a, same, decode_encode]

theorem encode_chars (input : Bytes) : ∀ c ∈ encode input, IsChar c := by
  induction input using encode.induct with
  | case1 a b c rest ih =>
      have := a.toNat_lt
      have := b.toNat_lt
      have := c.toNat_lt
      intro char inside
      simp only [encode, List.mem_cons] at inside
      rcases inside with rfl | rfl | rfl | rfl | later
      · exact .inr ⟨_, by omega, rfl⟩
      · exact .inr ⟨_, by omega, rfl⟩
      · exact .inr ⟨_, by omega, rfl⟩
      · exact .inr ⟨_, by omega, rfl⟩
      · exact ih char later
  | case2 a b =>
      have := a.toNat_lt
      have := b.toNat_lt
      intro char inside
      simp only [encode, List.mem_cons, List.not_mem_nil, or_false] at inside
      rcases inside with rfl | rfl | rfl | rfl
      · exact .inr ⟨_, by omega, rfl⟩
      · exact .inr ⟨_, by omega, rfl⟩
      · exact .inr ⟨_, by omega, rfl⟩
      · exact .inl rfl
  | case3 a =>
      have := a.toNat_lt
      intro char inside
      simp only [encode, List.mem_cons, List.not_mem_nil, or_false] at inside
      rcases inside with rfl | rfl | rfl | rfl
      · exact .inr ⟨_, by omega, rfl⟩
      · exact .inr ⟨_, by omega, rfl⟩
      · exact .inl rfl
      · exact .inl rfl
  | case4 =>
      intro char inside
      simp [encode] at inside

theorem IsChar.ne_zero {c : UInt8} (char : IsChar c) : c ≠ 0 := by
  rcases char with rfl | ⟨n, small, rfl⟩
  · decide
  · have all : ∀ k : Fin 64, digit k.val ≠ 0 := by decide
    exact all ⟨n, small⟩

theorem IsChar.ne_feed {c : UInt8} (char : IsChar c) : c ≠ 10 := by
  rcases char with rfl | ⟨n, small, rfl⟩
  · decide
  · have all : ∀ k : Fin 64, digit k.val ≠ 10 := by decide
    exact all ⟨n, small⟩

end WolfCert.CLib.Base64
