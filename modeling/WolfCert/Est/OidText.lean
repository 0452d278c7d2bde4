import WolfCert.Est.CsrAttrs
import Mathlib.Data.Nat.Digits.Lemmas

/-!
# OIDs in dotted decimal

X.690 packs an OID's arcs into subidentifiers, numbers to the base 128, the first two arcs into one. The
text is written by a loop that takes the first octet for those two arcs, keeps 64 bits of the others and
has 16 bytes to spare before each of them.
-/

namespace WolfCert.Est

open WolfCert.CLib

/-! ## Dotted numbers -/

def dotted (numbers : List Nat) : Bytes := [46].intercalate (numbers.map decimal)

theorem decimal_injective : Function.Injective decimal :=
  Function.LeftInverse.injective digitsValue_decimal

theorem decimal_no_dot (n : Nat) : (46 : UInt8) ∉ decimal n := by
  intro inside
  have digit := decimal_digits inside
  simp [isDigit] at digit

theorem decimal_digit {x : Nat} (digit : x < 10) : (decimal x).length = 1 := by
  have most : (decimal x).length ≤ 1 := by
    rw [decimal, List.length_map]
    exact (Nat.length_toDigits_le_iff (by decide) (by decide)).mpr digit
  exact le_antisymm most (List.length_pos_of_ne_nil (decimal_ne_nil x))

/-- Reading on never makes a number smaller. -/
theorem digits_grow (digits : Bytes) (n : Nat) :
    n ≤ digits.foldl (fun value c => value * 10 + (c.toNat - 48)) n := by
  induction digits generalizing n with
  | nil => exact Nat.le_refl n
  | cons c rest ih =>
      have later := ih (n * 10 + (c.toNat - 48))
      rw [List.foldl_cons]
      omega

/-- A number whose digits begin those of another one. -/
theorem decimal_cut {x y t : Nat} (cut : decimal y = (decimal x).take t) (short : t < (decimal x).length) :
    0 < x ∧ 10 * y ≤ x := by
  have positive : 0 < x := by
    rcases Nat.eq_zero_or_pos x with rfl | positive
    · have none : t = 0 := Nat.lt_one_iff.mp short
      rw [none, List.take_zero] at cut
      exact absurd cut (decimal_ne_nil y)
    · exact positive
  have parted := List.take_append_drop t (decimal x)
  rw [← cut] at parted
  obtain ⟨c, rest, more⟩ : ∃ c rest, (decimal x).drop t = c :: rest :=
    List.exists_cons_of_ne_nil (by simpa using short)
  have value := digitsValue_decimal x
  rw [← parted, more, digitsValue, List.foldl_append, List.foldl_cons] at value
  have start : (decimal y).foldl (fun value c => value * 10 + (c.toNat - 48)) 0 = y := digitsValue_decimal y
  rw [start] at value
  have bound := digits_grow rest (y * 10 + (c.toNat - 48))
  exact ⟨positive, by omega⟩

theorem dotted_snoc {before : List Nat} (filled : before ≠ []) (x : Nat) :
    dotted (before ++ [x]) = dotted before ++ 46 :: decimal x := by
  induction before with
  | nil => exact absurd rfl filled
  | cons n rest ih =>
      cases rest with
      | nil => simp [dotted, List.intercalate_cons_cons]
      | cons m more =>
          have later := ih (List.cons_ne_nil _ _)
          simp only [dotted, List.cons_append, List.map_cons, List.intercalate_cons_cons] at later ⊢
          rw [later]
          simp

theorem dotted_digit {before : List Nat} (filled : before ≠ []) {x : Nat} (digit : x < 10) :
    (dotted (before ++ [x])).length = (dotted before).length + 2 := by
  rw [dotted_snoc filled, List.length_append, List.length_cons, decimal_digit digit]

theorem dotted_grows {before : List Nat} (filled : before ≠ []) (more : List Nat) :
    (dotted before).length ≤ (dotted (before ++ more)).length := by
  induction more generalizing before with
  | nil => rw [List.append_nil]
  | cons x rest ih =>
      have some_ : before ++ [x] ≠ [] := by simp
      have longer := ih some_
      rw [dotted_snoc filled, List.length_append, List.append_assoc, List.singleton_append] at longer
      omega

theorem dotted_split {numbers : List Nat} (filled : numbers ≠ []) :
    (dotted numbers).splitOn 46 = numbers.map decimal := by
  refine List.splitOn_intercalate 46 ?_ (by simpa using filled)
  intro text inside
  obtain ⟨n, -, rfl⟩ := List.mem_map.mp inside
  exact decimal_no_dot n

theorem splitOn_dot (text rest : Bytes) :
    (text ++ 46 :: rest).splitOn 46 = text.splitOn 46 ++ rest.splitOn 46 := by
  rw [List.splitOn, List.splitOnP_append_cons _ _ (by decide)]
  rfl

theorem dotted_ne_nil {numbers : List Nat} (filled : numbers ≠ []) : dotted numbers ≠ [] := by
  intro empty
  have pieces := dotted_split filled
  rw [empty] at pieces
  obtain ⟨n, rest, rfl⟩ := List.exists_cons_of_ne_nil filled
  have first : decimal n = [] := by
    rw [List.map_cons] at pieces
    exact (List.cons.inj pieces).1.symm
  exact decimal_ne_nil n first

/-- What a text of dotted numbers goes on with behind a whole number. -/
def Continues (rest : Bytes) : Prop := rest = [] ∨ ∃ more, rest = 46 :: more

theorem Continues.take {rest : Bytes} (continues : Continues rest) (n : Nat) : Continues (rest.take n) := by
  rcases continues with rfl | ⟨more, rfl⟩
  · exact .inl List.take_nil
  · cases n with
    | zero => exact .inl rfl
    | succ n => exact .inr ⟨more.take n, rfl⟩

theorem dotted_front {shown numbers : List Nat} {rest : Bytes} (filled : shown ≠ [])
    (continues : Continues rest) (same : dotted shown ++ rest = dotted numbers) : shown <+: numbers := by
  have some_ : numbers ≠ [] := by
    rintro rfl
    exact dotted_ne_nil filled (List.append_eq_nil_iff.mp same).1
  have pieces := congrArg (List.splitOn 46) same
  rw [dotted_split some_] at pieces
  have front : shown.map decimal <+: numbers.map decimal := by
    rcases continues with rfl | ⟨more, rfl⟩
    · rw [List.append_nil, dotted_split filled] at pieces
      rw [pieces]
    · rw [splitOn_dot, dotted_split filled] at pieces
      exact ⟨_, pieces⟩
  have width := front.length_le
  rw [List.prefix_iff_eq_take, List.length_map, ← List.map_take] at front
  exact List.prefix_iff_eq_take.mpr (List.map_injective_iff.mpr decimal_injective front)

/-- Behind the numbers `before` a part of a number is shown, and the whole is a text of `before` and some
of `later`. -/
theorem dotted_part {before later : List Nat} {x t k : Nat} (filled : before ≠ [])
    (short : t < (decimal x).length)
    (same : dotted before ++ 46 :: (decimal x).take t = dotted ((before ++ later).take k)) :
    ∃ y rest, later = y :: rest ∧ 0 < x ∧ 10 * y ≤ x := by
  have some_ : (before ++ later).take k ≠ [] := by
    intro empty
    rw [empty] at same
    simp [dotted] at same
  have pieces := congrArg (List.splitOn 46) same
  have noDot : 46 ∉ (decimal x).take t := fun inside => decimal_no_dot x (List.mem_of_mem_take inside)
  have solid : ((decimal x).take t).splitOn 46 = [(decimal x).take t] :=
    List.splitOnP_eq_singleton (beq_of_not_mem noDot)
  rw [splitOn_dot, dotted_split filled, dotted_split some_, solid] at pieces
  have count := congrArg List.length pieces
  simp only [List.length_append, List.length_map, List.length_take, List.length_singleton] at count
  cases later with
  | nil =>
      rw [List.length_nil] at count
      omega
  | cons y rest =>
      refine ⟨y, rest, rfl, decimal_cut (t := t) ?_ short⟩
      have reached : before.length < k := by omega
      have found := congrArg (·[before.length]?) pieces
      simpa [List.getElem?_append_right, List.getElem?_take, reached] using found.symm

/-! ## Subidentifiers -/

/-- A number to the base 128, the high bit set in every octet but the last. -/
def subidentifier (n : Nat) : Bytes :=
  (Nat.digits 128 (n / 128)).reverse.map (fun d => UInt8.ofNat (128 + d)) ++ [UInt8.ofNat (n % 128)]

/-- The content of an OID with those subidentifiers. -/
def oidContent (ids : List Nat) : Bytes := ids.flatMap subidentifier

/-- The first subidentifier holds two arcs. -/
def oidArcs : List Nat → List Nat
  | [] => []
  | s :: later => min (s / 40) 2 :: (s - 40 * min (s / 40) 2) :: later

/-- What stands in the buffer before the NUL. -/
def oidWritten (cap : Nat) (oid : Bytes) : Bytes := (oidToDotted cap oid).take (cap - 1)

/-- The whole text where there is room for it, otherwise the text of the first arcs. -/
def Renders (ids : List Nat) (cap : Nat) : Prop :=
  ((dotted (oidArcs ids)).length + 32 ≤ cap → oidWritten cap (oidContent ids) = dotted (oidArcs ids)) ∧
    ∃ k, oidWritten cap (oidContent ids) = dotted ((oidArcs ids).take k)

/-! ## What the loop writes -/

/-- The loop over numbers that have been read. -/
def writeArcs (cap : Nat) : List Nat → Bytes → Bytes
  | [], text => text
  | n :: rest, text => if text.length + 16 < cap then writeArcs cap rest (text ++ 46 :: decimal n) else text

def septetStep (n d : Nat) : Nat := n * 128 + d

theorem septets_mod (ds : List Nat) (n : Nat) :
    ds.foldl septetStep (n % 2 ^ 64) % 2 ^ 64 = ds.foldl septetStep n % 2 ^ 64 := by
  induction ds generalizing n with
  | nil => exact Nat.mod_mod _ _
  | cons d rest ih =>
      have one : septetStep (n % 2 ^ 64) d % 2 ^ 64 = septetStep n d % 2 ^ 64 := by
        simp only [septetStep]
        omega
      rw [List.foldl_cons, List.foldl_cons, ← ih, one, ih]

theorem septet_more {d : Nat} (small : d < 128) :
    (UInt8.ofNat (128 + d) &&& 0x7F).toNat = d ∧ UInt8.ofNat (128 + d) &&& 0x80 ≠ 0 := by
  have all : ∀ d : Fin 128, (UInt8.ofNat (128 + d.val) &&& 0x7F).toNat = d.val ∧
      UInt8.ofNat (128 + d.val) &&& 0x80 ≠ 0 := by
    decide +kernel
  exact all ⟨d, small⟩

theorem septet_last {d : Nat} (small : d < 128) :
    (UInt8.ofNat d &&& 0x7F).toNat = d ∧ UInt8.ofNat d &&& 0x80 = 0 := by
  have all : ∀ d : Fin 128, (UInt8.ofNat d.val &&& 0x7F).toNat = d.val ∧
      UInt8.ofNat d.val &&& 0x80 = 0 := by
    decide +kernel
  exact all ⟨d, small⟩

theorem dottedArcs_septets {ds : List Nat} {last : Nat} (small : ∀ d ∈ ds, d < 128) (final : last < 128)
    (cap n : Nat) (rest text : Bytes) :
    dottedArcs cap (ds.map (fun d => UInt8.ofNat (128 + d)) ++ UInt8.ofNat last :: rest) n text =
      if text.length + 16 < cap then
        dottedArcs cap rest 0 (text ++ 46 :: decimal ((ds ++ [last]).foldl septetStep n % 2 ^ 64))
      else text := by
  have dot : ascii "." = [46] := rfl
  induction ds generalizing n with
  | nil =>
      obtain ⟨value, ends⟩ := septet_last final
      simp [dottedArcs, value, ends, dot, septetStep]
  | cons d ds ih =>
      obtain ⟨value, goesOn⟩ := septet_more (small d List.mem_cons_self)
      have later := ih (fun e inside => small e (List.mem_cons_of_mem _ inside)) ((n * 128 + d) % 2 ^ 64)
      simp only [List.map_cons, List.cons_append, dottedArcs, value, if_neg goesOn, later, List.foldl_cons]
      rw [septets_mod]
      split <;> rfl

theorem septets_value (n : Nat) :
    ((Nat.digits 128 (n / 128)).reverse ++ [n % 128]).foldl septetStep 0 = n := by
  have high : (Nat.digits 128 (n / 128)).reverse.foldl septetStep 0 = n / 128 := by
    have digits := Nat.ofDigits_digits 128 (n / 128)
    rw [Nat.ofDigits_eq_foldr] at digits
    rw [List.foldl_reverse]
    simpa [septetStep, Nat.add_comm, Nat.mul_comm] using digits
  rw [List.foldl_append, high]
  simp only [List.foldl_cons, List.foldl_nil, septetStep]
  omega

theorem septets_small {n d : Nat} (inside : d ∈ (Nat.digits 128 n).reverse) : d < 128 :=
  Nat.digits_lt_base (by decide) (List.mem_reverse.mp inside)

theorem dottedArcs_content (cap : Nat) (ids : List Nat) (text : Bytes) :
    dottedArcs cap (oidContent ids) 0 text = writeArcs cap (ids.map (· % 2 ^ 64)) text := by
  induction ids generalizing text with
  | nil => rfl
  | cons n rest ih =>
      have small : ∀ d ∈ (Nat.digits 128 (n / 128)).reverse, d < 128 := fun d inside => septets_small inside
      have one := dottedArcs_septets small (Nat.mod_lt n (by decide : 128 > 0)) cap 0 (oidContent rest) text
      rw [septets_value, ih] at one
      simpa [oidContent, subidentifier, writeArcs] using one

/-- One octet is both arcs. -/
theorem oidToDotted_octet {s : Nat} (small : s < 128) (later : List Nat) (cap : Nat) :
    oidToDotted cap (oidContent (s :: later)) =
      writeArcs cap (later.map (· % 2 ^ 64)) (dotted (oidArcs [s])) := by
  have content : oidContent (s :: later) = UInt8.ofNat s :: oidContent later := by
    simp [oidContent, subidentifier, Nat.div_eq_of_lt small, Nat.mod_eq_of_lt small]
  have octet : (UInt8.ofNat s).toNat = s := by
    rw [UInt8.toNat_ofNat', Nat.mod_eq_of_lt (by omega)]
  have low : UInt8.ofNat s < 80 ↔ s < 80 := by
    rw [UInt8.lt_iff_toNat_lt, octet]
    rfl
  have first : (if UInt8.ofNat s < 80 then s / 40 else 2) = min (s / 40) 2 := by
    simp only [low]
    split <;> omega
  have second : (if UInt8.ofNat s < 80 then s % 40 else s - 80) = s - 40 * min (s / 40) 2 := by
    simp only [low]
    split <;> omega
  rw [content, oidToDotted, octet, first, second, dottedArcs_content]
  simp [dotted, oidArcs, List.intercalate_cons_cons, show ascii "." = [46] from rfl]

theorem septets_shift (ds : List Nat) (n : Nat) :
    ds.foldl septetStep n = n * 128 ^ ds.length + ds.foldl septetStep 0 := by
  induction ds generalizing n with
  | nil => simp
  | cons d rest ih =>
      rw [List.foldl_cons, List.foldl_cons, ih, ih (septetStep 0 d), List.length_cons, Nat.pow_succ]
      simp only [septetStep]
      ring

/-- Of several octets the first is taken for both arcs, the rest for a third one. -/
theorem oidToDotted_octets {s : Nat} (large : 128 ≤ s) (later : List Nat) (cap : Nat) :
    ∃ d r, d < 128 ∧ (128 + d = s ↔ s = 129) ∧ (s = 129 → r = 1) ∧
      oidToDotted cap (oidContent (s :: later)) =
        writeArcs cap (r :: later.map (· % 2 ^ 64)) (dotted [2, 48 + d]) := by
  have high : s / 128 ≠ 0 := by omega
  have leading := Nat.getLast_digit_ne_zero 128 high
  obtain ⟨d, ds, digits⟩ := List.exists_cons_of_ne_nil
    (mt List.reverse_eq_nil_iff.mp (Nat.digits_ne_nil_iff_ne_zero.mpr high))
  have positive : d ≠ 0 := by
    have plain : Nat.digits 128 (s / 128) = ds.reverse ++ [d] := by
      rw [← List.reverse_cons, ← digits, List.reverse_reverse]
    simpa [plain] using leading
  have small : ∀ e ∈ d :: ds, e < 128 := fun e inside => septets_small (digits ▸ inside)
  have value := septets_value s
  rw [digits, List.cons_append, List.foldl_cons, septets_shift, List.length_append, List.length_singleton,
    Nat.pow_succ] at value
  generalize third : (ds ++ [s % 128]).foldl septetStep 0 = R at value
  have scaled : d ≤ d * 128 ^ ds.length := Nat.le_mul_of_pos_right d (by positivity)
  have summed : d * 128 ^ ds.length * 128 + R = s := by
    rw [← value, septetStep]
    ring
  refine ⟨d, R % 2 ^ 64, small d List.mem_cons_self, by omega, by omega, ?_⟩
  have content : oidContent (s :: later) = UInt8.ofNat (128 + d) ::
      (ds.map (fun d => UInt8.ofNat (128 + d)) ++ UInt8.ofNat (s % 128) :: oidContent later) := by
    simp [oidContent, subidentifier, digits]
  have octet : (UInt8.ofNat (128 + d)).toNat = 128 + d := by
    rw [UInt8.toNat_ofNat', Nat.mod_eq_of_lt]
    have := small d List.mem_cons_self
    omega
  have wide : ¬UInt8.ofNat (128 + d) < 80 := by
    rw [UInt8.lt_iff_toNat_lt, octet, show (80 : UInt8).toNat = 80 from rfl]
    omega
  rw [content, oidToDotted, if_neg wide, if_neg wide, octet,
    dottedArcs_septets (fun e inside => small e (List.mem_cons_of_mem _ inside))
      (Nat.mod_lt s (by decide : 128 > 0)), third, dottedArcs_content, writeArcs]
  have arcs : decimal 2 ++ ascii "." ++ decimal (128 + d - 80) = dotted [2, 48 + d] := by
    rw [show 128 + d - 80 = 48 + d by omega]
    simp [dotted, List.intercalate_cons_cons, show ascii "." = [46] from rfl]
  rw [arcs]

/-! ## Arcs in the buffer -/

theorem writeArcs_front (cap : Nat) (numbers : List Nat) (text : Bytes) :
    ∃ rest, Continues rest ∧ writeArcs cap numbers text = text ++ rest := by
  induction numbers generalizing text with
  | nil => exact ⟨[], .inl rfl, (List.append_nil text).symm⟩
  | cons n later ih =>
      by_cases room : text.length + 16 < cap
      · obtain ⟨rest, -, written⟩ := ih (text ++ 46 :: decimal n)
        refine ⟨46 :: decimal n ++ rest, .inr ⟨_, rfl⟩, ?_⟩
        rw [writeArcs, if_pos room, written, List.append_assoc]
      · exact ⟨[], .inl rfl, by rw [writeArcs, if_neg room, List.append_nil]⟩

theorem writeArcs_stop {cap : Nat} {text : Bytes} (full : ¬text.length + 16 < cap) (numbers : List Nat) :
    writeArcs cap numbers text = text := by
  cases numbers with
  | nil => rfl
  | cons n rest => rw [writeArcs, if_neg full]

/-- With `before` in the buffer and `numbers` still to come, the text ends as one of `before` and some of
`later`. -/
def EndsWell (cap : Nat) (before numbers later : List Nat) : Prop :=
  ∃ k, (writeArcs cap numbers (dotted before)).take (cap - 1) = dotted ((before ++ later).take k)

section Buffer

variable {cap : Nat} {before : List Nat}

theorem endsWell_stop {numbers : List Nat} (fits : (dotted before).length < cap)
    (stopped : writeArcs cap numbers (dotted before) = dotted before) (later : List Nat) :
    EndsWell cap before numbers later := by
  refine ⟨before.length, ?_⟩
  rw [stopped, List.take_left, List.take_of_length_le (by omega)]

theorem endsWell_full {numbers : List Nat} (fits : (dotted before).length < cap)
    (full : ¬(dotted before).length + 16 < cap) (later : List Nat) : EndsWell cap before numbers later :=
  endsWell_stop fits (writeArcs_stop full numbers) later

/-- The numbers that the buffer has room for stay there. -/
theorem writeArcs_shown (filled : before ≠ []) (fits : (dotted before).length < cap)
    {numbers all : List Nat} {k : Nat}
    (same : (writeArcs cap numbers (dotted before)).take (cap - 1) = dotted (all.take k)) :
    before <+: all := by
  obtain ⟨rest, continues, written⟩ := writeArcs_front cap numbers (dotted before)
  rw [written, List.take_append, List.take_of_length_le (by omega)] at same
  exact (dotted_front filled (continues.take _) same).trans (List.take_prefix k all)

theorem writeArcs_room {x : Nat} (filled : before ≠ []) (room : (dotted before).length + 16 < cap)
    (numbers : List Nat) :
    writeArcs cap (x :: numbers) (dotted before) = writeArcs cap numbers (dotted (before ++ [x])) := by
  rw [writeArcs, if_pos room, dotted_snoc filled]

theorem endsWell_step {x : Nat} (filled : before ≠ []) (room : (dotted before).length + 16 < cap)
    (fits : (dotted (before ++ [x])).length < cap) (numbers later : List Nat) :
    EndsWell cap before (x :: numbers) later ↔
      ∃ rest, later = x :: rest ∧ EndsWell cap (before ++ [x]) numbers rest := by
  have assoc : ∀ rest : List Nat, before ++ x :: rest = before ++ [x] ++ rest := by simp
  constructor
  · rintro ⟨k, same⟩
    rw [writeArcs_room filled room] at same
    have shown := writeArcs_shown (by simp) fits same
    rw [List.prefix_append_right_inj] at shown
    obtain ⟨rest, rfl⟩ := shown
    exact ⟨rest, rfl, k, by rw [same, List.append_assoc]⟩
  · rintro ⟨rest, rfl, k, same⟩
    exact ⟨k, by rw [writeArcs_room filled room, same, ← assoc]⟩

theorem endsWell_cut {x : Nat} (filled : before ≠ []) (room : (dotted before).length + 16 < cap)
    (long : cap ≤ (dotted (before ++ [x])).length) {numbers later : List Nat}
    (ends : EndsWell cap before (x :: numbers) later) : ∃ y rest, later = y :: rest ∧ 0 < x ∧ 10 * y ≤ x := by
  obtain ⟨k, same⟩ := ends
  rw [writeArcs_room filled room, writeArcs_stop (by omega)] at same
  rw [dotted_snoc filled] at same long
  obtain ⟨t, size⟩ : ∃ t, cap - 1 = (dotted before).length + (t + 1) :=
    ⟨cap - 1 - (dotted before).length - 1, by omega⟩
  rw [size, List.take_length_add_append, List.take_succ_cons] at same
  rw [List.length_append, List.length_cons] at long
  exact dotted_part filled (by omega) same

/-- The numbers come out as they are, cut to 64 bits. -/
theorem endsWell_wrapped (filled : before ≠ []) (fits : (dotted before).length < cap) (later : List Nat) :
    EndsWell cap before (later.map (· % 2 ^ 64)) later ↔
      ∀ j a, later[j]? = some a → (dotted (before ++ later.take j)).length + 16 < cap →
        a < 2 ^ 64 ∧ (dotted (before ++ later.take (j + 1))).length < cap := by
  induction later generalizing before with
  | nil =>
      refine iff_of_true (endsWell_stop fits rfl []) fun j a found => ?_
      cases found
  | cons a rest ih =>
      have assoc : ∀ j, before ++ (a :: rest).take (j + 1) = before ++ [a] ++ rest.take j := by simp
      by_cases room : (dotted before).length + 16 < cap
      · have here : (∀ j b, (a :: rest)[j]? = some b →
            (dotted (before ++ (a :: rest).take j)).length + 16 < cap →
              b < 2 ^ 64 ∧ (dotted (before ++ (a :: rest).take (j + 1))).length < cap) →
            a < 2 ^ 64 ∧ (dotted (before ++ [a])).length < cap := by
          intro all
          simpa [room] using all 0 a rfl
        constructor
        · intro ends
          by_cases shown : (dotted (before ++ [a % 2 ^ 64])).length < cap
          · obtain ⟨others, parted, later⟩ := (endsWell_step filled room shown _ _).mp ends
            obtain ⟨whole, rfl⟩ := List.cons.inj parted
            rw [← whole] at shown later
            have small : a < 2 ^ 64 := whole ▸ Nat.mod_lt a (by decide)
            intro j b found more
            cases j with
            | zero =>
                cases found
                exact ⟨small, by simpa using shown⟩
            | succ j =>
                rw [assoc] at more ⊢
                exact (ih (by simp) shown).mp later j b found more
          · -- What is cut off a number that is not above its arc leaves a smaller one.
            obtain ⟨y, others, parted, less⟩ := endsWell_cut filled room (Nat.le_of_not_lt shown) ends
            obtain ⟨rfl, rfl⟩ := List.cons.inj parted
            have := Nat.mod_le a (2 ^ 64)
            omega
        · intro all
          obtain ⟨small, shown⟩ := here all
          rw [List.map_cons, Nat.mod_eq_of_lt small, endsWell_step filled room shown]
          refine ⟨rest, rfl, (ih (by simp) shown).mpr fun j b found more => ?_⟩
          have := all (j + 1) b found (by rwa [assoc])
          rwa [assoc] at this
      · refine iff_of_true (endsWell_full fits room _) fun j b _ more => absurd more ?_
        have grows := dotted_grows filled ((a :: rest).take j)
        omega

/-- The numbers come out one place late, behind a digit. -/
theorem endsWell_late {x : Nat} (digit : x < 10) (filled : before ≠ []) (fits : (dotted before).length < cap)
    (later : List Nat) :
    EndsWell cap before (x :: later.map (· % 2 ^ 64)) later ↔
      ∀ j ≤ later.length, (dotted (before ++ later.take j)).length + 16 < cap → later[j]? = some x := by
  induction later generalizing before with
  | nil =>
      by_cases room : (dotted before).length + 16 < cap
      · have more := dotted_digit filled digit
        rw [endsWell_step filled room (by omega)]
        simp [room]
      · simp [endsWell_full fits room, room]
  | cons a rest ih =>
      by_cases room : (dotted before).length + 16 < cap
      · have more := dotted_digit filled digit
        have shown : (dotted (before ++ [x])).length < cap := by omega
        have assoc : ∀ j, before ++ (x :: rest).take (j + 1) = before ++ [x] ++ rest.take j := by simp
        rw [endsWell_step filled room shown]
        constructor
        · rintro ⟨others, parted, later⟩
          obtain ⟨rfl, rfl⟩ := List.cons.inj parted
          rw [List.map_cons, Nat.mod_eq_of_lt (by omega)] at later
          intro j bound more
          cases j with
          | zero => rfl
          | succ j =>
              rw [assoc] at more
              exact (ih (by simp) shown).mp later j (Nat.le_of_succ_le_succ bound) more
        · intro all
          have first := all 0 (Nat.zero_le _) (by simpa using room)
          cases first
          rw [List.map_cons, Nat.mod_eq_of_lt (by omega)]
          refine ⟨rest, rfl, (ih (by simp) shown).mpr fun j bound more => ?_⟩
          exact all (j + 1) (Nat.succ_le_succ bound) (by rwa [assoc])
      · refine iff_of_true (endsWell_full fits room _) fun j _ more => absurd more ?_
        have grows := dotted_grows filled ((a :: rest).take j)
        omega

end Buffer

/-! ## The text -/

/-- When the text is right: the first subidentifier is one octet and the buffer has room for its arcs, and
every arc that the loop comes to is a machine word that the buffer has room for. What is left over are the
buffers too small for a dot, and the octets 0x81 0x01, read as 2.49.1, with so many arcs 1 behind them that
the mistake is not seen. -/
def RendersWhen (s : Nat) (later : List Nat) (cap : Nat) : Prop :=
  cap ≤ 2 ∨
    (s < 128 ∧ (dotted (oidArcs [s])).length < cap ∧
      ∀ j a, later[j]? = some a → (dotted (oidArcs (s :: later.take j))).length + 16 < cap →
        a < 2 ^ 64 ∧ (dotted (oidArcs (s :: later.take (j + 1)))).length < cap) ∨
    (s = 129 ∧ 4 < cap ∧
      ∀ j ≤ later.length, (dotted (oidArcs (s :: later.take j))).length + 16 < cap → later[j]? = some 1)

theorem writeArcs_all {cap : Nat} {before later : List Nat} (filled : before ≠ [])
    (wide : (dotted (before ++ later)).length + 32 ≤ cap) :
    writeArcs cap later (dotted before) = dotted (before ++ later) := by
  induction later generalizing before with
  | nil => rw [List.append_nil]; rfl
  | cons a rest ih =>
      have grows := dotted_grows filled (a :: rest)
      have assoc : before ++ a :: rest = before ++ [a] ++ rest := by simp
      rw [writeArcs_room filled (by omega), ih (by simp) (by rwa [← assoc]), assoc]

theorem dotted_one (f : Nat) : dotted [f] = decimal f := by
  simp [dotted]

theorem dotted_pair (f g : Nat) : dotted [f, g] = dotted [f] ++ 46 :: decimal g :=
  dotted_snoc (List.cons_ne_nil f []) g

theorem dotted_pair_length (f g : Nat) : 3 ≤ (dotted [f, g]).length := by
  have first := List.length_pos_of_ne_nil (decimal_ne_nil f)
  have second := List.length_pos_of_ne_nil (decimal_ne_nil g)
  rw [dotted_pair, dotted_one, List.length_append, List.length_cons]
  omega

/-- A buffer that ends in the first two arcs. -/
theorem pair_cut {cap f g h : Nat} (digit : f < 10) (positive : 0 < cap)
    (small : cap ≤ (dotted [f, g]).length) (above : g < 10 * h ∨ g = h) (later : List Nat) :
    (∃ k, (dotted [f, g]).take (cap - 1) = dotted ((f :: h :: later).take k)) ↔ cap ≤ 2 := by
  have one : (dotted [f]).length = 1 := by
    rw [dotted_one, decimal_digit digit]
  rw [dotted_pair, List.length_append, List.length_cons, one] at small
  rw [dotted_pair]
  constructor
  · rintro ⟨k, same⟩
    by_contra room
    have size : cap - 1 = (dotted [f]).length + (cap - 3 + 1) := by omega
    rw [size, List.take_length_add_append, List.take_succ_cons] at same
    have short : cap - 3 < (decimal g).length := by omega
    change dotted [f] ++ _ = dotted (([f] ++ h :: later).take k) at same
    obtain ⟨y, rest, parted, less⟩ := dotted_part (List.cons_ne_nil f []) short same
    obtain ⟨rfl, -⟩ := List.cons.inj parted
    omega
  · intro few
    refine ⟨cap - 1, ?_⟩
    rw [List.take_append_of_le_length (by omega)]
    have sizes : cap - 1 = 0 ∨ cap - 1 = 1 := by omega
    rcases sizes with none | some_
    · rw [none]
      rfl
    · rw [some_, List.take_of_length_le (by omega)]
      rfl

/-- The first subidentifier is one octet. -/
theorem ends_octet {s cap : Nat} (octet : s < 128) (positive : 0 < cap) (later : List Nat) :
    (∃ k, oidWritten cap (oidContent (s :: later)) = dotted ((oidArcs (s :: later)).take k)) ↔
      RendersWhen s later cap := by
  have other : s ≠ 129 := by omega
  have wide := dotted_pair_length (min (s / 40) 2) (s - 40 * min (s / 40) 2)
  simp only [oidWritten, oidToDotted_octet octet, RendersWhen, octet, other, false_and, or_false, true_and]
  by_cases fits : (dotted (oidArcs [s])).length < cap
  · have many : ¬cap ≤ 2 := by
      rw [oidArcs] at fits
      omega
    simp only [many, fits, false_or, true_and]
    exact endsWell_wrapped (by simp [oidArcs]) fits later
  · rw [writeArcs_stop (by omega)]
    simp only [fits, false_and, or_false]
    exact pair_cut (by omega) positive (Nat.le_of_not_lt fits) (.inr rfl) later

/-- The first subidentifier is several octets. -/
theorem ends_octets {s cap : Nat} (octets : 128 ≤ s) (positive : 0 < cap) (later : List Nat) :
    (∃ k, oidWritten cap (oidContent (s :: later)) = dotted ((oidArcs (s :: later)).take k)) ↔
      RendersWhen s later cap := by
  obtain ⟨d, r, small, same, third, text⟩ := oidToDotted_octets octets later cap
  have arcs : oidArcs (s :: later) = 2 :: (s - 80) :: later := by
    rw [oidArcs, show min (s / 40) 2 = 2 by omega]
  have other : ¬s < 128 := by omega
  have wide := dotted_pair_length 2 (48 + d)
  simp only [oidWritten, text, arcs, RendersWhen, other, false_and, false_or]
  by_cases fits : (dotted [2, 48 + d]).length < cap
  · have many : ¬cap ≤ 2 := by omega
    simp only [many, false_or]
    by_cases lucky : s = 129
    · obtain rfl : d = 1 := by
        have := same.mpr lucky
        omega
      subst lucky
      rw [third rfl]
      have room : 4 < cap := fits
      simp only [room, true_and]
      exact endsWell_late (by decide) (by simp) fits later
    · simp only [lucky, false_and, iff_false]
      rintro ⟨k, shown⟩
      have front := writeArcs_shown (by simp) fits shown
      rw [List.cons_prefix_cons, List.cons_prefix_cons] at front
      exact lucky (same.mp (by omega))
  · rw [writeArcs_stop (by omega), pair_cut (by decide) positive (Nat.le_of_not_lt fits)
      (.inl (by omega)) later]
    refine (or_iff_left ?_).symm
    rintro ⟨lucky, room, -⟩
    obtain rfl : d = 1 := by
      have := same.mpr lucky
      omega
    exact fits room

theorem ends_iff (s : Nat) (later : List Nat) {cap : Nat} (positive : 0 < cap) :
    (∃ k, oidWritten cap (oidContent (s :: later)) = dotted ((oidArcs (s :: later)).take k)) ↔
      RendersWhen s later cap := by
  rcases Nat.lt_or_ge s 128 with octet | octets
  · exact ends_octet octet positive later
  · exact ends_octets octets positive later

section Wide

variable {s cap : Nat} {later : List Nat} (wide : (dotted (oidArcs (s :: later))).length + 32 ≤ cap)

include wide

theorem whole_text (octet : s < 128) (words : ∀ a ∈ later, a < 2 ^ 64) :
    oidWritten cap (oidContent (s :: later)) = dotted (oidArcs (s :: later)) := by
  have same : later.map (· % 2 ^ 64) = later := by
    rw [List.map_congr_left fun a inside => Nat.mod_eq_of_lt (words a inside), List.map_id']
  have all : writeArcs cap later (dotted (oidArcs [s])) = dotted (oidArcs (s :: later)) :=
    writeArcs_all (by simp [oidArcs]) wide
  rw [oidWritten, oidToDotted_octet octet, same, all, List.take_of_length_le (by omega)]

theorem words_of_rendered (rendered : RendersWhen s later cap) : s < 128 ∧ ∀ a ∈ later, a < 2 ^ 64 := by
  have room : ∀ j, (dotted (oidArcs (s :: later.take j))).length + 16 < cap := by
    intro j
    have some_ : oidArcs (s :: later.take j) ≠ [] := by simp [oidArcs]
    have grows := dotted_grows some_ (later.drop j)
    have whole : oidArcs (s :: later.take j) ++ later.drop j = oidArcs (s :: later) := by
      simp [oidArcs]
    rw [whole] at grows
    omega
  rcases rendered with few | ⟨octet, -, words⟩ | ⟨-, -, ones⟩
  · omega
  · refine ⟨octet, fun a inside => ?_⟩
    obtain ⟨j, found⟩ := List.mem_iff_getElem?.mp inside
    exact (words j a found (room j)).1
  · have beyond := ones later.length (Nat.le_refl _) (room _)
    simp at beyond

end Wide

/-- Exactly when the text is right; in a buffer with room for all of it and 32 bytes more, exactly when the
first subidentifier is one octet and every other one a machine word. -/
theorem oid_rendering (s : Nat) (later : List Nat) {cap : Nat} (positive : 0 < cap) :
    (Renders (s :: later) cap ↔ RendersWhen s later cap) ∧
      ((dotted (oidArcs (s :: later))).length + 32 ≤ cap →
        (Renders (s :: later) cap ↔ s < 128 ∧ ∀ a ∈ later, a < 2 ^ 64)) := by
  have ends := ends_iff s later positive
  have exact_ : Renders (s :: later) cap ↔ RendersWhen s later cap := by
    constructor
    · exact fun renders => ends.mp renders.2
    · intro rendered
      refine ⟨fun wide => ?_, ends.mpr rendered⟩
      obtain ⟨octet, words⟩ := words_of_rendered wide rendered
      exact whole_text wide octet words
  refine ⟨exact_, fun wide => ⟨fun renders => words_of_rendered wide (exact_.mp renders), ?_⟩⟩
  rintro ⟨octet, words⟩
  have whole := whole_text wide octet words
  exact ⟨fun _ => whole, (oidArcs (s :: later)).length, by rw [whole, List.take_length]⟩

theorem oid_rendering_word :
    (dotted (oidArcs [42, 840, 2 ^ 64 - 1])).length + 32 ≤ 128 ∧ Renders [42, 840, 2 ^ 64 - 1] 128 ∧
      ¬Renders [42, 840, 2 ^ 64] 128 := by
  refine ⟨by decide, ((oid_rendering 42 [840, 2 ^ 64 - 1] (by decide)).2 (by decide)).mpr (by decide), ?_⟩
  intro renders
  have words := ((oid_rendering 42 [840, 2 ^ 64] (by decide)).2 (by decide)).mp renders
  revert words
  decide

/-- The OID 2.999 is shown as 2.56.55, an arc of 65 bits as what is left of it, and 1.2.1000000000000000
loses a digit where the buffer ends. -/
theorem wrong_numbers :
    (oidContent [1079] = [0x88, 0x37] ∧ oidArcs [1079] = [2, 999] ∧
      oidWritten 128 [0x88, 0x37] = ascii "2.56.55" ∧ ¬Renders [1079] 128) ∧
    (oidWritten 128 (oidContent [42, 2 ^ 64 + 3]) = ascii "1.2.3" ∧ ¬Renders [42, 2 ^ 64 + 3] 128) ∧
    (oidWritten 20 (oidContent [42, 10 ^ 15]) = ascii "1.2.100000000000000" ∧
      ¬Renders [42, 10 ^ 15] 20) := by
  refine ⟨⟨by decide, by decide, by decide, fun renders => ?_⟩, ⟨by decide, fun renders => ?_⟩,
    by decide, fun renders => ?_⟩
  · exact absurd (renders.1 (by decide)) (by decide)
  · exact absurd (renders.1 (by decide)) (by decide)
  · rcases (ends_iff 42 [10 ^ 15] (by decide)).mp renders.2 with few | ⟨-, -, words⟩ | ⟨other, -⟩
    · exact absurd few (by decide)
    · exact absurd (words 0 _ rfl (by decide)).2 (by decide)
    · exact absurd other (by decide)

end WolfCert.Est
