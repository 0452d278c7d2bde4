import Mathlib.Data.List.TakeWhile
import WolfCert.Http.Steps
import WolfCert.Http.Stream

/-!
# Header blocks and what the client makes of them

The status line and the framing fields of a response, read off the whole header block, against the
status and the body framing that `inspect_headers` arrives at.
-/

namespace WolfCert.Http

open WolfCert.CLib

variable {σ : Type}

def isOws (c : UInt8) : Bool := c == 32 || c == 9

/-- The value with the blanks at both ends removed. -/
def trimOws (value : Bytes) : Bytes :=
  ((value.dropWhile isOws).reverse.dropWhile isOws).reverse

def teName : Bytes := ascii "Transfer-Encoding"

def clName : Bytes := ascii "Content-Length"

/-- A plain decimal number. -/
def PlainDecimal (value : Bytes) (n : Nat) : Prop :=
  value ≠ [] ∧ (∀ c ∈ value, isDigit c = true) ∧ digitsValue value = n

instance (value : Bytes) (n : Nat) : Decidable (PlainDecimal value n) := inferInstanceAs (Decidable (_ ∧ _))

def seenLength : Option Bytes → Int
  | some cl => (strtol cl).1
  | none => -1

/-- A name that no line can match with a blank before its colon. -/
def FieldName (name : Bytes) : Prop :=
  name ≠ [] ∧ ∀ c ∈ name, c ≠ 58 ∧ c ≠ 32 ∧ c ≠ 9 ∧ c ≠ 0

instance (name : Bytes) : Decidable (FieldName name) :=
  @instDecidableAnd _ _ inferInstance (List.decidableBAll _ name)

theorem ciLower_eq_iff {c d : UInt8} (small : d < 65) : ciLower c = d ↔ c = d := by
  unfold ciLower
  split
  · rename_i upper
    simp only [UInt8.lt_iff_toNat_lt, UInt8.le_iff_toNat_le, ← UInt8.toNat_inj, UInt8.toNat_add,
      UInt8.reduceToNat] at small upper ⊢
    omega
  · rfl

theorem asciiNcasecmp_name {line name : Bytes} (plain : ∀ c ∈ name, c ≠ 0)
    (same : asciiNcasecmp line name name.length = 0) :
    (line.take name.length).map ciLower = name.map ciLower := by
  induction name generalizing line with
  | nil => rfl
  | cons b bs ih =>
      have shown : ciLower b ≠ 0 := fun zero =>
        plain b (by simp) ((ciLower_eq_iff (by decide)).mp zero)
      simp only [List.length_cons, asciiNcasecmp] at same
      have first : charAt (b :: bs) = b := rfl
      rw [first] at same
      by_cases agree : ciLower (charAt line) = ciLower b
      · rw [if_neg (by simpa using agree), agree, if_neg shown] at same
        cases line with
        | nil => exact absurd agree.symm shown
        | cons a as =>
            have rest : (as.take bs.length).map ciLower = bs.map ciLower :=
              ih (fun c inside => plain c (by simp [inside])) same
            rw [List.length_cons, List.take_succ_cons, List.map_cons, List.map_cons, rest]
            exact congrArg (· :: _) agree
      · rw [if_pos agree] at same
        have distinct : (ciLower (charAt line)).toNat ≠ (ciLower b).toNat := fun equal =>
          agree (UInt8.toNat_inj.mp equal)
        omega

/-- Folding moves neither a colon nor a blank. -/
theorem folded_ne {text name : Bytes} (folded : text.map ciLower = name.map ciLower) {c d : UInt8}
    (small : d < 65) (absent : d ∉ name) (inside : c ∈ text) : c ≠ d := by
  rintro rfl
  have image : ciLower c ∈ text.map ciLower := List.mem_map_of_mem inside
  rw [folded, List.mem_map] at image
  obtain ⟨b, named, equal⟩ := image
  have fixed : ciLower c = c := (ciLower_eq_iff small).mpr rfl
  rw [fixed] at equal
  exact absent ((ciLower_eq_iff small).mp equal ▸ named)

/-- A matching line has its first colon right after the name. -/
theorem httpHdrIs_cut {line name : Bytes} (field : FieldName name) (here : httpHdrIs line name = true) :
    (line.take name.length).map ciLower = name.map ciLower ∧
      line.takeWhile (· != 58) = line.take name.length ∧
      line.dropWhile (· != 58) = 58 :: line.drop (name.length + 1) := by
  obtain ⟨nonempty, plain⟩ := field
  simp only [httpHdrIs, Bool.and_eq_true, decide_eq_true_eq, beq_iff_eq] at here
  obtain ⟨⟨long, colon⟩, same⟩ := here
  have folded := asciiNcasecmp_name (fun c inside => (plain c inside).2.2.2) same
  have cut : line = line.take name.length ++ 58 :: line.drop (name.length + 1) := by
    have front := (List.take_append_drop name.length line).symm
    have next : line.drop name.length = 58 :: line.drop (name.length + 1) := by
      rw [List.drop_eq_getElem_cons long] at colon ⊢
      exact congrArg (· :: _) colon
    rwa [next] at front
  have noColon : ∀ c ∈ line.take name.length, (c != 58) = true := fun c inside => by
    simpa using folded_ne folded (by decide) (fun named => (plain 58 named).1 rfl) inside
  refine ⟨folded, ?_, ?_⟩
  · conv_lhs => rw [cut, List.takeWhile_append_of_pos noColon]
    simp
  · conv_lhs => rw [cut, List.dropWhile_append_of_pos noColon]
    simp

/-- A line matches names of one spelling only. -/
theorem httpHdrIs_same {line name other : Bytes} (field : FieldName name) (field' : FieldName other)
    (here : httpHdrIs line name = true) (there : httpHdrIs line other = true) :
    name.map ciLower = other.map ciLower := by
  obtain ⟨folded, before, -⟩ := httpHdrIs_cut field here
  obtain ⟨folded', before', -⟩ := httpHdrIs_cut field' there
  rw [← folded, ← folded', ← before, ← before']

/-- There is no blank before the colon of a matching line. -/
theorem httpHdrSplit_field {line name : Bytes} (field : FieldName name)
    (here : httpHdrIs line name = true) :
    httpHdrSplit line = .value ((line.drop (name.length + 1)).dropWhile isOws) := by
  obtain ⟨folded, before, after⟩ := httpHdrIs_cut field here
  simp only [httpHdrSplit, before, after]
  cases last : (line.take name.length).getLast? with
  | none => rfl
  | some c =>
      have inside : c ∈ line.take name.length := List.mem_of_getLast? last
      have blank : ¬ (c = 32 ∨ c = 9) := by
        rintro (rfl | rfl)
        · exact folded_ne folded (by decide) (fun named => (field.2 32 named).2.1 rfl) inside rfl
        · exact folded_ne folded (by decide) (fun named => (field.2 9 named).2.2.1 rfl) inside rfl
      simp only [if_neg blank]
      rfl

theorem teName_field : FieldName teName := by decide +kernel

theorem clName_field : FieldName clName := by decide +kernel

end WolfCert.Http
