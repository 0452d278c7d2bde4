import Mathlib.Algebra.Group.Int.Defs
import Mathlib.Algebra.Group.Nat.Defs
import Mathlib.Data.List.Basic
import Mathlib.Data.List.TakeWhile

/-!
# Byte strings and the C library functions over them

A buffer is a list of bytes. A C string is such a list read up to its first NUL.
-/

namespace WolfCert.CLib

abbrev Bytes := List UInt8

def ascii (text : String) : Bytes :=
  text.toList.map fun c => UInt8.ofNat c.toNat

def cString (buffer : Bytes) : Bytes :=
  buffer.takeWhile (· != 0)

/-- The character a C string pointer points at: NUL at the end of the string. -/
def charAt (text : Bytes) : UInt8 :=
  text.headD 0

/-- `strchr`: the suffix that starts at the first occurrence. -/
def strchr (c : UInt8) : Bytes → Option Bytes
  | [] => none
  | b :: rest => if b = c then some (b :: rest) else strchr c rest

/-! ## Up to a byte -/

section UpTo

variable {x : UInt8} {text front : Bytes}

theorem bne_of_not_mem (absent : x ∉ text) : ∀ c ∈ text, (c != x) = true := by
  intro c inside
  rw [bne_iff_ne]
  rintro rfl
  exact absent inside

theorem beq_of_not_mem (absent : x ∉ text) : ∀ c ∈ text, (c == x) = false := by
  intro c inside
  rw [beq_eq_false_iff_ne]
  rintro rfl
  exact absent inside

theorem takeWhile_whole (absent : x ∉ text) : text.takeWhile (· != x) = text :=
  List.takeWhile_eq_self_iff.mpr (bne_of_not_mem absent)

theorem takeWhile_front (absent : x ∉ front) (rest : Bytes) :
    (front ++ x :: rest).takeWhile (· != x) = front := by
  rw [List.takeWhile_append_of_pos (bne_of_not_mem absent)]
  simp

theorem dropWhile_front (absent : x ∉ front) (rest : Bytes) :
    (front ++ x :: rest).dropWhile (· != x) = x :: rest := by
  rw [List.dropWhile_append_of_pos (bne_of_not_mem absent)]
  simp

theorem strchr_of_not_mem (absent : x ∉ front) (rest : Bytes) :
    strchr x (front ++ x :: rest) = some (x :: rest) := by
  induction front with
  | nil => simp [strchr]
  | cons b front ih =>
      have other : b ≠ x := fun same => absent (by simp [same])
      rw [List.cons_append, strchr, if_neg other]
      exact ih fun inside => absent (by simp [inside])

theorem strchr_absent (absent : x ∉ text) : strchr x text = none := by
  induction text with
  | nil => rfl
  | cons b rest ih =>
      simp only [List.mem_cons, not_or] at absent
      simp [strchr, Ne.symm absent.1, ih absent.2]

end UpTo

/-- `strstr`: the text before the first occurrence and the text after it. -/
def strstr (needle : Bytes) : Bytes → Option (Bytes × Bytes)
  | [] => if needle = [] then some ([], []) else none
  | b :: rest =>
      if needle.isPrefixOf (b :: rest) then some ([], (b :: rest).drop needle.length)
      else (strstr needle rest).map fun found => (b :: found.1, found.2)

theorem strstr_eq_append {needle text before after : Bytes}
    (found : strstr needle text = some (before, after)) : text = before ++ needle ++ after := by
  induction text generalizing before after with
  | nil =>
      simp only [strstr] at found
      split at found
      · rename_i empty
        cases found
        simp [empty]
      · cases found
  | cons b rest ih =>
      simp only [strstr] at found
      split at found
      · rename_i here
        cases found
        rw [List.isPrefixOf_iff_prefix] at here
        exact (List.prefix_iff_eq_append.mp here).symm
      · simp only [Option.map_eq_some_iff, Prod.mk.injEq, Prod.exists] at found
        obtain ⟨inner, outer, later, rfl, rfl⟩ := found
        rw [ih later]
        rfl

theorem strstr_length {needle text before after : Bytes}
    (found : strstr needle text = some (before, after)) :
    before.length + after.length ≤ text.length := by
  rw [strstr_eq_append found, List.length_append, List.length_append]
  omega

/-- What is found in a text is found at the same place when the text goes on. -/
theorem strstr_append {needle text before after : Bytes} (more : Bytes)
    (found : strstr needle text = some (before, after)) :
    strstr needle (text ++ more) = some (before, after ++ more) := by
  induction text generalizing before after with
  | nil =>
      simp only [strstr] at found
      split at found
      · rename_i empty
        cases found
        subst empty
        cases more <;> simp [strstr]
      · cases found
  | cons b rest ih =>
      simp only [strstr] at found
      split at found
      · rename_i here
        cases found
        rw [List.isPrefixOf_iff_prefix] at here
        have still : needle.isPrefixOf (b :: (rest ++ more)) = true :=
          List.isPrefixOf_iff_prefix.mpr (here.trans (List.prefix_append (b :: rest) more))
        have short : needle.length ≤ (b :: rest).length := here.length_le
        rw [List.cons_append, strstr, if_pos still, ← List.cons_append,
          List.drop_append_of_le_length short]
      · rename_i absent
        simp only [Option.map_eq_some_iff, Prod.mk.injEq, Prod.exists] at found
        obtain ⟨inner, outer, later, rfl, rfl⟩ := found
        have size := congrArg List.length (strstr_eq_append later)
        simp only [List.length_append] at size
        have still : ¬ needle.isPrefixOf (b :: (rest ++ more)) = true := by
          simp only [List.isPrefixOf_iff_prefix] at absent ⊢
          intro here
          exact absent (List.prefix_of_prefix_length_le here (List.prefix_append (b :: rest) more)
            (by simp only [List.length_cons]; omega))
        rw [List.cons_append, strstr, if_neg still, ih later]
        rfl

theorem strstr_skip {needle front : Bytes} {n : UInt8} (absent : n ∉ front) (text : Bytes) :
    strstr (n :: needle) (front ++ text) =
      (strstr (n :: needle) text).map fun found => (front ++ found.1, found.2) := by
  induction front with
  | nil => simp
  | cons b front ih =>
      have other : n ≠ b := fun same => absent (by simp [same])
      rw [List.cons_append, strstr, if_neg (by simp [other]), ih (fun inside => absent (by simp [inside])),
        Option.map_map]
      rfl

theorem strstr_self {needle : Bytes} (rest : Bytes) : strstr needle (needle ++ rest) = some ([], rest) := by
  cases needle with
  | nil => cases rest <;> simp [strstr]
  | cons n needle =>
      have here : (n :: needle).isPrefixOf (n :: (needle ++ rest)) = true :=
        List.isPrefixOf_iff_prefix.mpr ⟨rest, rfl⟩
      rw [List.cons_append, strstr, if_pos here]
      simp

/-- The first occurrence of one byte has none before it. -/
theorem strstr_byte {c : UInt8} {text before after : Bytes} (found : strstr [c] text = some (before, after)) :
    c ∉ before := by
  induction text generalizing before after with
  | nil => simp [strstr] at found
  | cons b rest ih =>
      simp only [strstr] at found
      split at found
      · cases found
        exact List.not_mem_nil
      · rename_i other
        simp only [Option.map_eq_some_iff, Prod.mk.injEq, Prod.exists] at found
        obtain ⟨inner, outer, later, rfl, rfl⟩ := found
        have differs : c ≠ b := by
          rintro rfl
          exact other (by simp)
        simp [differs, ih later]

def isSpace (c : UInt8) : Bool :=
  c == 32 || (9 ≤ c && c ≤ 13)

def isDigit (c : UInt8) : Bool :=
  48 ≤ c && c ≤ 57

def hexDigit (c : UInt8) : Option Nat :=
  if 48 ≤ c ∧ c ≤ 57 then some (c.toNat - 48)
  else if 97 ≤ c ∧ c ≤ 102 then some (c.toNat - 97 + 10)
  else if 65 ≤ c ∧ c ≤ 70 then some (c.toNat - 65 + 10)
  else none

def digitsValue (digits : Bytes) : Nat :=
  digits.foldl (fun value c => value * 10 + (c.toNat - 48)) 0

def longMax : Int := 2 ^ 63 - 1

def longMin : Int := -(2 ^ 63)

/-- `strtol` in base ten: the value, clamped to the range of `long`, and the end pointer. -/
def strtol (text : Bytes) : Int × Bytes :=
  let unspaced := text.dropWhile isSpace
  let negative := charAt unspaced == 45
  let unsigned := if negative || charAt unspaced == 43 then unspaced.tail else unspaced
  let digits := unsigned.takeWhile isDigit
  let value : Int := digitsValue digits
  if digits = [] then (0, text)
  else if negative then (max (-value) longMin, unsigned.dropWhile isDigit)
  else (min value longMax, unsigned.dropWhile isDigit)

theorem strtol_le (text : Bytes) : (strtol text).1 ≤ longMax := by
  have limit : longMax = 9223372036854775807 := rfl
  have least : longMin = -9223372036854775808 := rfl
  simp only [strtol]
  repeat' split
  all_goals dsimp only
  all_goals omega

/-- A digit is no white space and no sign. -/
theorem isDigit_plain {c : UInt8} (digit : isDigit c = true) : isSpace c = false ∧ c ≠ 45 ∧ c ≠ 43 := by
  revert digit
  simp only [isDigit, isSpace, Bool.and_eq_true, decide_eq_true_eq, Bool.or_eq_false_iff,
    beq_eq_false_iff_ne, Bool.and_eq_false_iff, decide_eq_false_iff_not, UInt8.le_iff_toNat_le,
    ne_eq, ← UInt8.toNat_inj, UInt8.reduceToNat]
  omega

/-- A number starts with neither space nor sign. -/
theorem digits_start {digits : Bytes} (some : digits ≠ []) (all : ∀ c ∈ digits, isDigit c = true) (rest : Bytes) :
    (digits ++ rest).dropWhile isSpace = digits ++ rest ∧ (charAt (digits ++ rest) == 45) = false ∧
      (charAt (digits ++ rest) == 43) = false := by
  obtain ⟨c, later, rfl⟩ := List.exists_cons_of_ne_nil some
  obtain ⟨unspaced, noMinus, noPlus⟩ := isDigit_plain (all c (by simp))
  exact ⟨by simp [unspaced], beq_false_of_ne noMinus, beq_false_of_ne noPlus⟩

theorem digits_cut {digits rest : Bytes} (all : ∀ c ∈ digits, isDigit c = true)
    (ends : ∀ c ∈ rest.head?, isDigit c = false) :
    (digits ++ rest).takeWhile isDigit = digits ∧ (digits ++ rest).dropWhile isDigit = rest := by
  rw [List.takeWhile_append_of_pos all, List.dropWhile_append_of_pos all]
  cases rest with
  | nil => simp
  | cons d after => simp [ends d rfl]

/-- `strtol` on a plain number. -/
theorem strtol_digits {digits rest : Bytes} (some : digits ≠ []) (all : ∀ c ∈ digits, isDigit c = true)
    (ends : ∀ c ∈ rest.head?, isDigit c = false) :
    strtol (digits ++ rest) = (min (digitsValue digits : Int) longMax, rest) := by
  obtain ⟨start, minus, plus⟩ := digits_start some all rest
  obtain ⟨taken, dropped⟩ := digits_cut all ends
  simp only [strtol, start, minus, plus, Bool.or_false, Bool.false_eq_true, if_false, taken, dropped, some]

def ulongMax : Nat := 2 ^ 64 - 1

/-- `strtoul` in base ten without an end pointer; a minus sign negates in the range of the type. -/
def strtoul (text : Bytes) : Nat :=
  let unspaced := text.dropWhile isSpace
  let negative := charAt unspaced == 45
  let unsigned := if negative || charAt unspaced == 43 then unspaced.tail else unspaced
  let value := digitsValue (unsigned.takeWhile isDigit)
  if value > ulongMax then ulongMax
  else if negative then (ulongMax + 1 - value) % (ulongMax + 1)
  else value

/-- `strtoul` on a plain number. -/
theorem strtoul_digits {digits rest : Bytes} (some : digits ≠ []) (all : ∀ c ∈ digits, isDigit c = true)
    (ends : ∀ c ∈ rest.head?, isDigit c = false) :
    strtoul (digits ++ rest) = min (digitsValue digits) ulongMax := by
  obtain ⟨start, minus, plus⟩ := digits_start some all rest
  obtain ⟨taken, -⟩ := digits_cut all ends
  simp only [strtoul, start, minus, plus, Bool.or_false, Bool.false_eq_true, if_false, taken]
  split <;> omega

/-- `%d` and `%zu` of a nonnegative value. -/
def decimal (value : Nat) : Bytes :=
  (Nat.toDigits 10 value).map fun c => UInt8.ofNat c.toNat

theorem decimal_digits {n : Nat} {c : UInt8} (inside : c ∈ decimal n) : isDigit c = true := by
  obtain ⟨d, member, rfl⟩ := List.mem_map.mp inside
  have digit := Nat.isDigit_of_mem_toDigits (by decide) (by decide) member
  simp only [Char.isDigit, Bool.and_eq_true, decide_eq_true_eq, ge_iff_le, UInt32.le_iff_toNat_le] at digit
  have bounds : 48 ≤ d.toNat ∧ d.toNat ≤ 57 := digit
  simp only [isDigit, Bool.and_eq_true, decide_eq_true_eq, UInt8.le_iff_toNat_le, UInt8.toNat_ofNat',
    UInt8.reduceToNat]
  omega

theorem decimal_length {n : Nat} (small : n < 100000) : (decimal n).length ≤ 5 := by
  rw [decimal, List.length_map]
  exact (Nat.length_toDigits_le_iff (by decide) (by decide)).mpr small

theorem decimal_ne_nil (n : Nat) : decimal n ≠ [] := by
  simp [decimal, Nat.toDigits_ne_nil]

theorem digitsValue_decimal (n : Nat) : digitsValue (decimal n) = n := by
  have digits : ∀ text : List Char, (∀ c ∈ text, c.isDigit = true) → ∀ start,
      (text.map fun c => UInt8.ofNat c.toNat).foldl (fun value c => value * 10 + (c.toNat - 48)) start =
        Nat.ofDigitChars 10 text start := by
    intro text all start
    induction text generalizing start with
    | nil => rfl
    | cons c text ih =>
        have digit := all c List.mem_cons_self
        simp only [Char.isDigit, Bool.and_eq_true, decide_eq_true_eq, ge_iff_le,
          UInt32.le_iff_toNat_le] at digit
        have bounds : 48 ≤ c.toNat ∧ c.toNat ≤ 57 := digit
        have byte : (UInt8.ofNat c.toNat).toNat = c.toNat := by
          rw [UInt8.toNat_ofNat']
          omega
        rw [List.map_cons, List.foldl_cons, ih fun d inside => all d (List.mem_cons_of_mem _ inside),
          Nat.ofDigitChars_cons, byte, Nat.mul_comm]
        rfl
  rw [digitsValue, decimal, digits _ fun c inside =>
    Nat.isDigit_of_mem_toDigits (by decide) (by decide) inside]
  exact Nat.ofDigitChars_ten_toDigits

/-- `memmove` inside one memory: the source bytes are read before the destination is written. -/
def memmove (memory : Bytes) (dst src len : Nat) : Bytes :=
  memory.take dst ++ (memory.drop src).take len ++ memory.drop (dst + len)

theorem memmove_length {memory : Bytes} {dst src len : Nat} (source : src + len ≤ memory.length)
    (target : dst + len ≤ memory.length) : (memmove memory dst src len).length = memory.length := by
  simp only [memmove, List.length_append, List.length_take, List.length_drop]
  omega

theorem memmove_take {memory : Bytes} {dst src len : Nat} (source : src + len ≤ memory.length)
    (target : dst + len ≤ memory.length) :
    (memmove memory dst src len).take (dst + len) =
      memory.take dst ++ (memory.drop src).take len := by
  have size : (memory.take dst ++ (memory.drop src).take len).length = dst + len := by
    simp only [List.length_append, List.length_take, List.length_drop]
    omega
  rw [memmove, ← size, List.take_left]

theorem memmove_take_of_le {memory : Bytes} {dst src len k : Nat} (below : k ≤ dst)
    (inside : k ≤ memory.length) : (memmove memory dst src len).take k = memory.take k := by
  have reached : k ≤ (memory.take dst).length := by
    simp only [List.length_take]
    omega
  rw [memmove, List.append_assoc, List.take_append_of_le_length reached, List.take_take,
    Nat.min_eq_left below]

theorem memmove_front {memory : Bytes} {src len : Nat} (source : src + len ≤ memory.length) :
    (memmove memory 0 src len).take len = (memory.drop src).take len := by
  have moved : (memmove memory 0 src len).take (0 + len) = _ := memmove_take source (by omega)
  rwa [Nat.zero_add, List.take_zero, List.nil_append] at moved

/-- What lies past the destination is not written. -/
theorem memmove_drop {memory : Bytes} {dst src len k : Nat} (source : src + len ≤ memory.length)
    (target : dst + len ≤ memory.length) (past : dst + len ≤ k) :
    (memmove memory dst src len).drop k = memory.drop k := by
  have size : (memory.take dst ++ (memory.drop src).take len).length = dst + len := by
    simp only [List.length_append, List.length_take, List.length_drop]
    omega
  rw [memmove, List.drop_append, size, List.drop_drop, List.drop_eq_nil_of_le (by omega),
    List.nil_append, Nat.add_sub_cancel' past]

/-- One past the largest `size_t`. -/
def sizeRange : Nat := 2 ^ 64

def sizeAdd (a b : Nat) : Nat := (a + b) % sizeRange

def sizeDouble (a : Nat) : Nat := (a * 2) % sizeRange

theorem sizeAdd_le (a b : Nat) : sizeAdd a b ≤ a + b :=
  Nat.mod_le ..

theorem sizeAdd_eq {a b : Nat} (fits : a + b < sizeRange) : sizeAdd a b = a + b :=
  Nat.mod_eq_of_lt fits

theorem sizeAdd_lt (a b : Nat) : sizeAdd a b < sizeRange :=
  Nat.mod_lt _ (by decide)

example : strtol (ascii " -42x") = (-42, ascii "x") := by decide
example : strstr (ascii "://") (ascii "http://h") = some (ascii "http", ascii "h") := by decide
example : decimal 65535 = ascii "65535" := by decide

end WolfCert.CLib
