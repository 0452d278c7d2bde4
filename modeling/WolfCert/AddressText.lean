import Mathlib.Data.List.TakeWhile
import WolfCert.Address

/-!
# The texts of IP addresses

Dotted quads and the text forms of RFC 4291, and that `wolfcert_parse_ip` reads exactly these.
-/

namespace WolfCert

open WolfCert.CLib

/-! ## Texts -/

/-- Four octets in decimal, none with a leading zero. -/
def QuadText (text address : Bytes) : Prop :=
  ∃ a b c d : UInt8, address = [a, b, c, d] ∧
    text = decimal a.toNat ++ 46 :: (decimal b.toNat ++ 46 :: (decimal c.toNat ++ 46 :: decimal d.toNat))

def isHex (c : UInt8) : Bool := (hexDigit c).isSome

def hexValue (text : Bytes) : Nat := text.foldl (fun value c => value * 16 + (hexDigit c).getD 0) 0

/-- One to four hexadecimal digits, and the number they are. -/
structure GroupText (text : Bytes) (value : Nat) : Prop where
  filled : text ≠ []
  short : text.length ≤ 4
  digits : ∀ c ∈ text, isHex c = true
  value : hexValue text = value

/-- Groups with a colon between them; at the end of an address a dotted quad may stand for two. -/
inductive GroupsText : Bool → Bytes → List Nat → Prop where
  | group {last : Bool} {text : Bytes} {value : Nat} (here : GroupText text value) :
      GroupsText last text [value]
  | quad {text : Bytes} {a b c d : UInt8} (here : QuadText text [a, b, c, d]) :
      GroupsText true text [a.toNat * 256 + b.toNat, c.toNat * 256 + d.toNat]
  | more {last : Bool} {text rest : Bytes} {value : Nat} {values : List Nat} (here : GroupText text value)
      (there : GroupsText last rest values) : GroupsText last (text ++ 58 :: rest) (value :: values)

/-- What stands on one side of a `::`, which may be nothing. -/
def SideText (last : Bool) (text : Bytes) (groups : List Nat) : Prop :=
  (text = [] ∧ groups = []) ∨ GroupsText last text groups

/-- A text of the address with these eight groups; `::` stands for one or more that are zero. -/
inductive Ipv6Text : Bytes → List Nat → Prop where
  | full {text : Bytes} {groups : List Nat} (all : GroupsText true text groups)
      (eight : groups.length = 8) : Ipv6Text text groups
  | gap {left right : Bytes} {before after : List Nat} (front : SideText false left before)
      (back : SideText true right after) (room : before.length + after.length < 8) :
      Ipv6Text (left ++ 58 :: 58 :: right)
        (before ++ List.replicate (8 - (before.length + after.length)) 0 ++ after)

def groupBytes (value : Nat) : Bytes := [UInt8.ofNat (value / 256), UInt8.ofNat (value % 256)]

/-- The groups in network byte order. -/
def addressBytes (groups : List Nat) : Bytes := groups.flatMap groupBytes

@[simp] theorem addressBytes_nil : addressBytes [] = [] := rfl

theorem addressBytes_cons (value : Nat) (groups : List Nat) :
    addressBytes (value :: groups) = groupBytes value ++ addressBytes groups := rfl

@[simp] theorem addressBytes_append (front back : List Nat) :
    addressBytes (front ++ back) = addressBytes front ++ addressBytes back := List.flatMap_append

@[simp] theorem addressBytes_length (groups : List Nat) :
    (addressBytes groups).length = 2 * groups.length := by
  induction groups with
  | nil => rfl
  | cons value groups ih =>
      rw [addressBytes_cons, List.length_append, ih, List.length_cons]
      simp only [groupBytes, List.length_cons, List.length_nil]
      omega

theorem addressBytes_zeros (n : Nat) :
    addressBytes (List.replicate n 0) = List.replicate (2 * n) 0 := by
  induction n with
  | zero => rfl
  | succ n ih =>
      rw [List.replicate_succ, addressBytes_cons, ih, show 2 * (n + 1) = 2 * n + 1 + 1 by omega]
      rfl

theorem groupBytes_octets (a b : UInt8) : groupBytes (a.toNat * 256 + b.toNat) = [a, b] := by
  have small : b.toNat < 256 := b.toNat_lt
  have high : (a.toNat * 256 + b.toNat) / 256 = a.toNat := by omega
  have low : (a.toNat * 256 + b.toNat) % 256 = b.toNat := by omega
  rw [groupBytes, high, low, UInt8.ofNat_toNat, UInt8.ofNat_toNat]

/-! ## Dotted quads -/

/-- Up to three digits without a leading zero are the decimal of their value. -/
theorem decimal_of_digits {text : Bytes} (filled : text ≠ []) (short : text.length ≤ 3)
    (digits : ∀ c ∈ text, isDigit c = true) (plain : ¬(text.length > 1 ∧ charAt text = 48)) :
    decimal (digitsValue text) = text := by
  have digit : ∀ c : UInt8, isDigit c = true → ∃ d : Fin 10, c = UInt8.ofNat (48 + d.val) := by
    intro c isOne
    simp only [isDigit, Bool.and_eq_true, decide_eq_true_eq, UInt8.le_iff_toNat_le] at isOne
    have low : 48 ≤ c.toNat := isOne.1
    have high : c.toNat ≤ 57 := isOne.2
    refine ⟨⟨c.toNat - 48, by omega⟩, ?_⟩
    rw [show 48 + (c.toNat - 48) = c.toNat by omega, UInt8.ofNat_toNat]
  have one : ∀ d : Fin 10, decimal (digitsValue [UInt8.ofNat (48 + d.val)]) =
      [UInt8.ofNat (48 + d.val)] := by decide +kernel
  have two : ∀ d e : Fin 10, d ≠ 0 →
      decimal (digitsValue [UInt8.ofNat (48 + d.val), UInt8.ofNat (48 + e.val)]) =
        [UInt8.ofNat (48 + d.val), UInt8.ofNat (48 + e.val)] := by decide +kernel
  have three : ∀ d e f : Fin 10, d ≠ 0 →
      decimal (digitsValue [UInt8.ofNat (48 + d.val), UInt8.ofNat (48 + e.val), UInt8.ofNat (48 + f.val)]) =
        [UInt8.ofNat (48 + d.val), UInt8.ofNat (48 + e.val), UInt8.ofNat (48 + f.val)] := by
    decide +kernel
  have positive := List.length_pos_iff.mpr filled
  obtain size | size | size : text.length = 1 ∨ text.length = 2 ∨ text.length = 3 := by omega
  · obtain ⟨a, rfl⟩ := List.length_eq_one_iff.mp size
    obtain ⟨d, rfl⟩ := digit a (digits a (by simp))
    exact one d
  · obtain ⟨a, b, rfl⟩ := List.length_eq_two.mp size
    obtain ⟨d, rfl⟩ := digit a (digits a (by simp))
    obtain ⟨e, rfl⟩ := digit b (digits b (by simp))
    refine two d e ?_
    rintro rfl
    exact plain ⟨by simp, rfl⟩
  · obtain ⟨a, b, c, rfl⟩ := List.length_eq_three.mp size
    obtain ⟨d, rfl⟩ := digit a (digits a (by simp))
    obtain ⟨e, rfl⟩ := digit b (digits b (by simp))
    obtain ⟨f, rfl⟩ := digit c (digits c (by simp))
    refine three d e f ?_
    rintro rfl
    exact plain ⟨by simp, rfl⟩

theorem octet_length (v : UInt8) : (decimal v.toNat).length ≤ 3 := by
  rw [decimal, List.length_map]
  exact (Nat.length_toDigits_le_iff (by decide) (by decide)).mpr (by have := v.toNat_lt; omega)

theorem octet_plain (v : UInt8) : ¬((decimal v.toNat).length > 1 ∧ charAt (decimal v.toNat) = 48) := by
  have all : ∀ n : Fin 256, ¬((decimal n.val).length > 1 ∧ charAt (decimal n.val) = 48) := by
    decide +kernel
  exact all ⟨v.toNat, v.toNat_lt⟩

theorem parseOctet_sound {s rest : Bytes} {v : UInt8} (parsed : parseOctet s = some (v, rest)) :
    s = decimal v.toNat ++ rest := by
  unfold parseOctet at parsed
  dsimp only at parsed
  split at parsed
  · cases parsed
  · rename_i accepted
    obtain ⟨filled, small, plain⟩ := not_or.mp accepted |>.imp_right not_or.mp
    simp only [Option.some.injEq, Prod.mk.injEq] at parsed
    obtain ⟨rfl, rfl⟩ := parsed
    have front : (s.take 3).takeWhile isDigit <+: s :=
      (List.takeWhile_prefix _).trans (List.take_prefix _ _)
    have short : ((s.take 3).takeWhile isDigit).length ≤ 3 :=
      (List.takeWhile_prefix _).length_le.trans (List.length_take_le _ _)
    have first : charAt ((s.take 3).takeWhile isDigit) = charAt s := by
      obtain ⟨more, same⟩ := front
      cases cut : (s.take 3).takeWhile isDigit with
      | nil => exact absurd cut filled
      | cons c tail =>
          rw [cut] at same
          rw [← same]
          rfl
    rw [← first] at plain
    have value : (UInt8.ofNat (digitsValue ((s.take 3).takeWhile isDigit))).toNat =
        digitsValue ((s.take 3).takeWhile isDigit) := by
      rw [UInt8.toNat_ofNat']
      omega
    rw [value, decimal_of_digits filled short (fun c inside => List.mem_takeWhile_imp inside) plain]
    exact List.prefix_iff_eq_append.mp front |>.symm

theorem parseOctet_decimal (v : UInt8) {rest : Bytes} (stops : ∀ c ∈ rest.head?, isDigit c = false) :
    parseOctet (decimal v.toNat ++ rest) = some (v, rest) := by
  have digits : ((decimal v.toNat ++ rest).take 3).takeWhile isDigit = decimal v.toNat := by
    rw [List.take_append, List.takeWhile_append_of_pos (by
        intro c inside
        exact decimal_digits (List.mem_of_mem_take inside)),
      List.take_of_length_le (octet_length v)]
    cases rest with
    | nil => simp
    | cons c rest =>
        have none : (List.take (3 - (decimal v.toNat).length) (c :: rest)).takeWhile isDigit = [] := by
          cases 3 - (decimal v.toNat).length with
          | zero => rfl
          | succ n => simp [stops c (by simp)]
        rw [none, List.append_nil]
  have first : charAt (decimal v.toNat ++ rest) = charAt (decimal v.toNat) := by
    cases cut : decimal v.toNat with
    | nil => exact absurd cut (decimal_ne_nil _)
    | cons c tail => rfl
  have plain := octet_plain v
  have small := v.toNat_lt
  unfold parseOctet
  dsimp only
  rw [digits, first, digitsValue_decimal, if_neg (by
      rintro (empty | large | zero)
      · exact decimal_ne_nil _ empty
      · omega
      · exact plain zero), UInt8.ofNat_toNat, List.drop_left]

theorem parseOctets_sound {n : Nat} {s out out' rest : Bytes} (begun : out ≠ [])
    (parsed : parseOctets n s out = some (out', rest)) :
    ∃ octets : List UInt8, octets.length = n ∧ out' = out ++ octets ∧
      s = octets.flatMap (fun v => 46 :: decimal v.toNat) ++ rest := by
  induction n generalizing s out with
  | zero =>
      cases parsed
      exact ⟨[], rfl, by simp, rfl⟩
  | succ n ih =>
      rw [parseOctets, if_pos begun] at parsed
      split at parsed
      · cases parsed
      · rename_i dotted
        rw [not_and, not_not] at dotted
        split at parsed
        · cases parsed
        · rename_i v more read
          obtain ⟨octets, size, same, text⟩ := ih (by simp) parsed
          refine ⟨v :: octets, by simp [size], by simp [same], ?_⟩
          have dot : s = 46 :: s.tail := by
            cases s with
            | nil => exact absurd (dotted begun) (by decide)
            | cons c tail => rw [← show c = 46 from dotted begun]; rfl
          rw [dot, parseOctet_sound read, text]
          simp

theorem parseOctets_text (octets : List UInt8) {out rest : Bytes} (begun : out ≠ [])
    (stops : ∀ c ∈ rest.head?, isDigit c = false) :
    parseOctets octets.length (octets.flatMap (fun v => 46 :: decimal v.toNat) ++ rest) out =
      some (out ++ octets, rest) := by
  induction octets generalizing out with
  | nil => simp [parseOctets]
  | cons v octets ih =>
      have next : ∀ c ∈ (octets.flatMap (fun v => 46 :: decimal v.toNat) ++ rest).head?,
          isDigit c = false := by
        cases octets with
        | nil => exact stops
        | cons w octets =>
            intro c first
            cases first
            rfl
      rw [List.length_cons, parseOctets, List.flatMap_cons, List.append_assoc, List.cons_append,
        if_pos begun, if_neg (fun other => other.2 rfl), List.tail_cons, parseOctet_decimal v next]
      dsimp only
      rw [ih (by simp), List.append_assoc]
      rfl

/-- The parser takes the dotted quads and nothing else. -/
theorem parseIpv4_iff {s out : Bytes} : parseIpv4 s = some out ↔ QuadText s out := by
  constructor
  · intro parsed
    unfold parseIpv4 at parsed
    split at parsed
    · rename_i found octets
      cases parsed
      rw [parseOctets, if_neg (fun both => both.1 rfl), if_neg (not_not.mpr rfl)] at octets
      split at octets
      · cases octets
      · rename_i a more read
        obtain ⟨others, three, same, text⟩ := parseOctets_sound (by simp) octets
        obtain ⟨b, c, d, rfl⟩ := List.length_eq_three.mp three
        refine ⟨a, b, c, d, same, ?_⟩
        rw [parseOctet_sound read, text]
        simp
    · cases parsed
  · rintro ⟨a, b, c, d, rfl, rfl⟩
    have begun : [a] ≠ [] := List.cons_ne_nil _ _
    have ended : ∀ c ∈ ([] : Bytes).head?, isDigit c = false := by simp
    have rest := parseOctets_text [b, c, d] begun ended
    simp only [List.flatMap_cons, List.flatMap_nil, List.append_nil, List.cons_append,
      List.length_cons, List.length_nil, List.nil_append] at rest
    unfold parseIpv4
    rw [parseOctets, if_neg (fun both => both.1 rfl), if_neg (not_not.mpr rfl),
      parseOctet_decimal a (by rintro _ ⟨⟩; rfl)]
    dsimp only
    rw [List.nil_append, rest]

theorem QuadText.no_colon {text address : Bytes} (quad : QuadText text address) : (58 : UInt8) ∉ text := by
  obtain ⟨a, b, c, d, -, rfl⟩ := quad
  have digits : ∀ v : UInt8, (58 : UInt8) ∉ decimal v.toNat := fun v inside =>
    absurd (decimal_digits inside) (by decide)
  simp [digits]

theorem QuadText.dot {text address : Bytes} (quad : QuadText text address) : (46 : UInt8) ∈ text := by
  obtain ⟨a, b, c, d, -, rfl⟩ := quad
  simp

/-! ## Groups -/

theorem hexGroup_eq (n : Nat) (s : Bytes) (val count : Nat) :
    hexGroup n s val count =
      (((s.take n).takeWhile isHex).foldl (fun value c => value * 16 + (hexDigit c).getD 0) val,
        count + ((s.take n).takeWhile isHex).length, s.drop ((s.take n).takeWhile isHex).length) := by
  induction n generalizing s val count with
  | zero => simp [hexGroup]
  | succ n ih =>
      cases s with
      | nil => simp [hexGroup]
      | cons c rest =>
          cases digit : hexDigit c with
          | none => simp [hexGroup, digit, isHex]
          | some d =>
              simp only [hexGroup, digit, ih, List.take_succ_cons, isHex, List.takeWhile_cons,
                Option.isSome_some, if_true, List.foldl_cons, Option.getD_some, List.length_cons,
                List.drop_succ_cons]
              rw [show count + 1 + (List.takeWhile isHex (List.take n rest)).length =
                count + ((List.takeWhile isHex (List.take n rest)).length + 1) by omega]

theorem isHex_colon : isHex 58 = false := by decide

theorem isHex_dot {c : UInt8} (hex : isHex c = true) : c ≠ 46 ∧ c ≠ 58 := by
  constructor <;>
    · rintro rfl
      exact absurd hex (by decide)

/-- Where a group ends: at the end of the text or before a colon. -/
def EndsGroup (rest : Bytes) : Prop := ∀ c ∈ rest.head?, c = 58

theorem hexGroup_text {text rest : Bytes} {value : Nat} (group : GroupText text value)
    (ends : EndsGroup rest) : hexGroup 4 (text ++ rest) 0 0 = (value, text.length, rest) := by
  have taken : ((text ++ rest).take 4).takeWhile isHex = text := by
    rw [List.take_append, List.takeWhile_append_of_pos (by
        intro c inside
        exact group.digits c (List.mem_of_mem_take inside)),
      List.take_of_length_le group.short]
    cases rest with
    | nil => simp
    | cons c rest =>
        have none : (List.take (4 - text.length) (c :: rest)).takeWhile isHex = [] := by
          cases 4 - text.length with
          | zero => rfl
          | succ n => simp [ends c (by simp), isHex_colon]
        rw [none, List.append_nil]
  rw [hexGroup_eq, taken, Nat.zero_add, List.drop_left, ← group.value]
  rfl

theorem hexGroup_sound {s rest : Bytes} {value n : Nat} (read : hexGroup 4 s 0 0 = (value, n, rest))
    (some : n ≠ 0) : ∃ text, GroupText text value ∧ s = text ++ rest := by
  rw [hexGroup_eq] at read
  simp only [Prod.mk.injEq, Nat.zero_add] at read
  obtain ⟨same, size, left⟩ := read
  refine ⟨(s.take 4).takeWhile isHex, ⟨?_, ?_, ?_, same⟩, ?_⟩
  · exact List.ne_nil_of_length_pos (by omega)
  · exact (List.takeWhile_prefix _).length_le.trans (List.length_take_le _ _)
  · exact fun c inside => List.mem_takeWhile_imp inside
  · rw [← left]
    exact (List.prefix_iff_eq_append.mp
      ((List.takeWhile_prefix _).trans (List.take_prefix _ _))).symm

theorem groupIsIpv4_group {text rest : Bytes} {value : Nat} (group : GroupText text value)
    (ends : EndsGroup rest) : groupIsIpv4 (text ++ rest) = false := by
  have front : (text ++ rest).takeWhile (· != 58) = text := by
    rw [List.takeWhile_append_of_pos fun c inside => by simp [(isHex_dot (group.digits c inside)).2]]
    cases rest with
    | nil => simp
    | cons c rest => simp [ends c (by simp)]
  rw [groupIsIpv4, front, List.any_eq_false]
  intro c inside
  simp [(isHex_dot (group.digits c inside)).1]

theorem groupIsIpv4_quad {text address : Bytes} (quad : QuadText text address) :
    groupIsIpv4 text = true := by
  have whole : text.takeWhile (· != 58) = text :=
    List.takeWhile_eq_self_iff.mpr fun c inside => by
      simpa using fun same : c = 58 => quad.no_colon (same ▸ inside)
  rw [groupIsIpv4, whole, List.any_eq_true]
  exact ⟨46, quad.dot, rfl⟩

/-- What the group loop does with a group in front: it stores it and looks at what follows. -/
theorem ipv6Groups_group {text rest buf : Bytes} {value fuel : Nat} {gap : Option Nat}
    (group : GroupText text value) (ends : EndsGroup rest) (room : buf.length + 2 ≤ 16) :
    ipv6Groups (fuel + 1) (text ++ rest) buf gap =
      match rest with
      | [] => some (buf ++ groupBytes value, gap)
      | _ :: s =>
          if charAt s = 58 then
            if gap.isSome then none
            else ipv6Groups fuel s.tail (buf ++ groupBytes value) (some (buf.length + 2))
          else if s = [] then none
          else ipv6Groups fuel s (buf ++ groupBytes value) gap := by
  have filled := group.filled
  have positive : text.length ≠ 0 := fun zero => filled (List.length_eq_zero_iff.mp zero)
  rw [ipv6Groups, if_neg (by simp [filled]), groupIsIpv4_group group ends, if_neg (by decide),
    hexGroup_text group ends]
  dsimp only
  rw [if_neg (by omega)]
  cases rest with
  | nil => rfl
  | cons c s =>
      have colon : c = 58 := ends c (by simp)
      dsimp only
      rw [if_neg (not_not.mpr colon)]
      simp [groupBytes]

theorem GroupsText.filled {last : Bool} {text : Bytes} {groups : List Nat}
    (all : GroupsText last text groups) : text ≠ [] := by
  cases all with
  | group here => exact here.filled
  | quad here => exact List.ne_nil_of_mem here.dot
  | more here there => simp

theorem GroupsText.head {last : Bool} {text : Bytes} {groups : List Nat}
    (all : GroupsText last text groups) (rest : Bytes) : charAt (text ++ rest) ≠ 58 := by
  have hex : ∀ {text : Bytes} {value : Nat}, GroupText text value → ∀ rest, charAt (text ++ rest) ≠ 58 := by
    intro text value here rest
    cases text with
    | nil => exact absurd rfl here.filled
    | cons c tail => exact (isHex_dot (here.digits c (by simp))).2
  cases all with
  | group here => exact hex here rest
  | quad here =>
      cases text with
      | nil => exact absurd here.dot (by simp)
      | cons c tail => exact fun same => here.no_colon (same ▸ List.mem_cons_self)
  | more here there =>
      rw [List.append_assoc]
      exact hex here _

/-- The loop stores groups that follow one another to the end of the text. -/
theorem ipv6Groups_groups {text buf : Bytes} {groups : List Nat} {fuel : Nat} {gap : Option Nat}
    (all : GroupsText true text groups) (enough : text.length < fuel)
    (room : buf.length + 2 * groups.length ≤ 16) :
    ipv6Groups fuel text buf gap = some (buf ++ addressBytes groups, gap) := by
  generalize kind : true = last at all
  induction all generalizing buf fuel with
  | group here =>
      rename_i text value
      obtain ⟨fuel, rfl⟩ : ∃ f, fuel = f + 1 := ⟨fuel - 1, by omega⟩
      rw [← List.append_nil text, ipv6Groups_group here (by simp [EndsGroup]) room]
      simp [addressBytes_cons]
  | quad here =>
      obtain ⟨fuel, rfl⟩ : ∃ f, fuel = f + 1 := ⟨fuel - 1, by omega⟩
      simp only [List.length_cons, List.length_nil] at room
      rw [ipv6Groups, if_neg (List.ne_nil_of_mem here.dot), if_pos (groupIsIpv4_quad here),
        if_neg (by omega), parseIpv4_iff.mpr here]
      simp [addressBytes_cons, groupBytes_octets]
  | more here there ih =>
      rename_i last text rest value values
      obtain ⟨fuel, rfl⟩ : ∃ f, fuel = f + 1 := ⟨fuel - 1, by omega⟩
      simp only [List.length_append, List.length_cons] at enough room
      have plain := there.head []
      rw [List.append_nil] at plain
      rw [ipv6Groups_group here (by simp [EndsGroup]) (by omega)]
      dsimp only
      rw [if_neg plain, if_neg there.filled, ih (by omega) (by simp [groupBytes]; omega) kind,
        addressBytes_cons, List.append_assoc]

theorem ipv6Groups_side {text buf : Bytes} {groups : List Nat} {fuel : Nat} {gap : Option Nat}
    (side : SideText true text groups) (enough : text.length < fuel)
    (room : buf.length + 2 * groups.length ≤ 16) :
    ipv6Groups fuel text buf gap = some (buf ++ addressBytes groups, gap) := by
  rcases side with ⟨rfl, rfl⟩ | all
  · obtain ⟨fuel, rfl⟩ : ∃ f, fuel = f + 1 := ⟨fuel - 1, by omega⟩
    simp [ipv6Groups]
  · exact ipv6Groups_groups all enough room

/-- Groups, a `::` and what stands behind it. -/
theorem ipv6Groups_gap {left right buf : Bytes} {before after : List Nat} {fuel : Nat}
    (front : GroupsText false left before) (back : SideText true right after)
    (enough : left.length + 2 + right.length < fuel)
    (room : buf.length + 2 * (before.length + after.length) ≤ 16) :
    ipv6Groups fuel (left ++ 58 :: 58 :: right) buf none =
      some (buf ++ addressBytes before ++ addressBytes after, some (buf.length + 2 * before.length)) := by
  generalize kind : false = last at front
  induction front generalizing buf fuel with
  | group here =>
      rename_i value
      obtain ⟨fuel, rfl⟩ : ∃ f, fuel = f + 1 := ⟨fuel - 1, by omega⟩
      simp only [List.length_cons, List.length_nil] at room
      rw [ipv6Groups_group here (by simp [EndsGroup]) (by omega)]
      dsimp only
      rw [if_pos (show charAt (58 :: right) = 58 from rfl), if_neg (by decide), List.tail_cons,
        ipv6Groups_side back (by omega) (by simp [groupBytes]; omega)]
      simp [addressBytes_cons]
  | quad here => cases kind
  | more here there ih =>
      rename_i last text rest value values
      obtain ⟨fuel, rfl⟩ : ∃ f, fuel = f + 1 := ⟨fuel - 1, by omega⟩
      simp only [List.length_append, List.length_cons] at enough room
      rw [List.append_assoc, List.cons_append, ipv6Groups_group here (by simp [EndsGroup]) (by omega)]
      dsimp only
      rw [if_neg (there.head _), if_neg (by simp [there.filled]),
        ih (by omega) (by simp [groupBytes]; omega) kind]
      simp only [addressBytes_cons, List.append_assoc, List.length_append, groupBytes, List.length_cons,
        List.length_nil, Option.some.injEq, Prod.mk.injEq, true_and]
      omega

/-- Whatever the loop accepts is one of the two. -/
theorem ipv6Groups_sound {s buf buf' : Bytes} {gap gap' : Option Nat} {fuel : Nat}
    (run : ipv6Groups fuel s buf gap = some (buf', gap')) :
    (∃ groups, SideText true s groups ∧ buf' = buf ++ addressBytes groups ∧ gap' = gap) ∨
    (gap = none ∧ ∃ left right before after, GroupsText false left before ∧ SideText true right after ∧
      s = left ++ 58 :: 58 :: right ∧ buf' = buf ++ addressBytes before ++ addressBytes after ∧
      gap' = some (buf.length + 2 * before.length)) := by
  induction fuel generalizing s buf gap with
  | zero => cases run
  | succ fuel ih =>
      rw [ipv6Groups] at run
      split at run
      · rename_i empty
        cases run
        exact .inl ⟨[], .inl ⟨empty, rfl⟩, by simp, rfl⟩
      · split at run
        · split at run
          · cases run
          · obtain ⟨address, parsed, same⟩ := Option.map_eq_some_iff.mp run
            cases same
            have quad := parseIpv4_iff.mp parsed
            obtain ⟨a, b, c, d, rfl, text⟩ := parseIpv4_iff.mp parsed
            exact .inl ⟨_, .inr (.quad quad), by simp [addressBytes_cons, groupBytes_octets], rfl⟩
        · cases read : hexGroup 4 s 0 0 with
          | mk value tail =>
              obtain ⟨n, rest⟩ := tail
              rw [read] at run
              dsimp only at run
              split at run
              · cases run
              · rename_i accepted
                obtain ⟨text, group, rfl⟩ := hexGroup_sound read (not_or.mp accepted).1
                cases rest with
                | nil =>
                  cases run
                  refine .inl ⟨[value], .inr ?_, by simp [addressBytes_cons, groupBytes], rfl⟩
                  rw [List.append_nil]
                  exact .group group
                | cons c s =>
                  dsimp only at run
                  split at run
                  · cases run
                  · rename_i colon
                    rw [not_not] at colon
                    subst colon
                    split at run
                    · rename_i second
                      split at run
                      · cases run
                      · rename_i unset
                        have free : gap = none := Option.not_isSome_iff_eq_none.mp unset
                        subst free
                        have shape : s = 58 :: s.tail := by
                          cases s with
                          | nil => exact absurd second (by decide)
                          | cons c tail => rw [← show c = 58 from second]; rfl
                        rcases ih run with ⟨groups, side, rfl, rfl⟩ | ⟨set, -⟩
                        · refine .inr ⟨rfl, text, s.tail, [value], groups, .group group, side, ?_, ?_, ?_⟩
                          · rw [← shape]
                          · simp [addressBytes_cons, groupBytes]
                          · simp
                        · cases set
                    · split at run
                      · cases run
                      · rename_i filled
                        rcases ih run with ⟨groups, side, rfl, rfl⟩ |
                          ⟨rfl, left, right, before, after, front, back, rfl, rfl, rfl⟩
                        · rcases side with ⟨empty, -⟩ | all
                          · exact absurd empty filled
                          · exact .inl ⟨value :: groups, .inr (.more group all),
                              by simp [addressBytes_cons, groupBytes], rfl⟩
                        · refine .inr ⟨rfl, text ++ 58 :: left, right, value :: before, after,
                            .more group front, back, by simp, ?_, ?_⟩
                          · simp [addressBytes_cons, groupBytes]
                          · simp only [List.length_append, List.length_cons, List.length_nil,
                              Option.some.injEq]
                            omega

/-! ## Addresses -/

/-- The groups moved apart around the run of zeros that `::` stands for. -/
theorem gap_bytes (before after : List Nat) (room : before.length + after.length < 8) :
    let buf := addressBytes before ++ addressBytes after
    buf.take (2 * before.length) ++ List.replicate (16 - buf.length) 0 ++ buf.drop (2 * before.length) =
      addressBytes (before ++ List.replicate (8 - (before.length + after.length)) 0 ++ after) := by
  have front : 2 * before.length = (addressBytes before).length := (addressBytes_length before).symm
  have zeros : 16 - (addressBytes before ++ addressBytes after).length =
      2 * (8 - (before.length + after.length)) := by
    rw [List.length_append, addressBytes_length, addressBytes_length]
    omega
  dsimp only
  rw [zeros, front, List.take_left, List.drop_left, addressBytes_append, addressBytes_append,
    addressBytes_zeros]

theorem parseIpv6_sound {s out : Bytes} (parsed : parseIpv6 s = some out) :
    ∃ groups, Ipv6Text s groups ∧ out = addressBytes groups := by
  unfold parseIpv6 at parsed
  by_cases colon : charAt s = 58
  · by_cases second : charAt s.tail = 58
    · have shape : s = 58 :: 58 :: s.drop 2 := by
        match s, colon, second with
        | [], colon, _ => exact absurd colon (by decide)
        | [c], _, second => exact absurd (show (0 : UInt8) = 58 from second) (by decide)
        | c :: d :: rest, colon, second =>
            rw [show c = 58 from colon, show d = 58 from second]
            rfl
      rw [if_pos colon, if_neg (not_not.mpr second)] at parsed
      dsimp only at parsed
      cases run : ipv6Groups ((s.drop 2).length + 1) (s.drop 2) [] (some 0) with
      | none => rw [run] at parsed; cases parsed
      | some found =>
          obtain ⟨buf, gap⟩ := found
          rw [run] at parsed
          rcases ipv6Groups_sound run with ⟨groups, side, rfl, rfl⟩ | ⟨set, -⟩
          · dsimp only at parsed
            split at parsed
            · cases parsed
            · rename_i room
              rw [List.nil_append, addressBytes_length] at room
              cases parsed
              have here : ([] : List Nat).length + groups.length < 8 := by
                rw [List.length_nil]
                omega
              refine ⟨_, ?_, gap_bytes [] groups here⟩
              rw [shape]
              exact .gap (.inl ⟨rfl, rfl⟩) side here
          · cases set
    · rw [if_pos colon, if_pos second] at parsed
      cases parsed
  · rw [if_neg colon] at parsed
    dsimp only at parsed
    cases run : ipv6Groups (s.length + 1) s [] none with
    | none => rw [run] at parsed; cases parsed
    | some found =>
        obtain ⟨buf, gap⟩ := found
        rw [run] at parsed
        rcases ipv6Groups_sound run with ⟨groups, side, rfl, rfl⟩ |
          ⟨-, left, right, before, after, front, back, rfl, rfl, rfl⟩
        · dsimp only at parsed
          split at parsed
          · cases parsed
          · rename_i size
            rw [not_not, List.nil_append, addressBytes_length] at size
            cases parsed
            rcases side with ⟨-, rfl⟩ | all
            · cases size
            · exact ⟨groups, .full all (by omega), rfl⟩
        · dsimp only at parsed
          split at parsed
          · cases parsed
          · rename_i room
            have here : before.length + after.length < 8 := by
              simp only [List.nil_append, List.length_append, addressBytes_length] at room
              omega
            refine ⟨_, .gap (.inr front) back here, ?_⟩
            rw [← gap_bytes before after here]
            simpa using (Option.some.inj parsed).symm

theorem parseIpv6_text {s : Bytes} {groups : List Nat} (text : Ipv6Text s groups) :
    parseIpv6 s = some (addressBytes groups) := by
  unfold parseIpv6
  cases text with
  | full all eight =>
      have plain := all.head []
      rw [List.append_nil] at plain
      rw [if_neg plain]
      dsimp only
      rw [ipv6Groups_groups all (by omega) (by simp [eight]), List.nil_append]
      dsimp only
      rw [if_neg (by simp [eight])]
  | gap front back room =>
      rename_i left right before after
      have size : ¬(addressBytes before ++ addressBytes after).length ≥ 16 := by
        rw [List.length_append, addressBytes_length, addressBytes_length]
        omega
      rcases front with ⟨rfl, rfl⟩ | front
      · rw [List.nil_append, if_pos (show charAt (58 :: 58 :: right) = 58 from rfl),
          if_neg (not_not.mpr (show charAt (58 :: 58 :: right).tail = 58 from rfl)),
          show (58 :: 58 :: right).drop 2 = right from rfl]
        dsimp only
        rw [ipv6Groups_side back (by omega) (by simp at room ⊢; omega)]
        dsimp only
        rw [addressBytes_nil, List.nil_append] at size
        rw [List.nil_append, if_neg size, ← gap_bytes [] after room]
        rfl
      · rw [if_neg (front.head _)]
        dsimp only
        rw [ipv6Groups_gap front back (by simp; omega) (by simp; omega)]
        dsimp only
        rw [List.nil_append, if_neg size, ← gap_bytes before after room]
        simp

theorem Ipv6Text.colon {text : Bytes} {groups : List Nat} (form : Ipv6Text text groups) :
    (58 : UInt8) ∈ text := by
  cases form with
  | full all eight =>
      cases all with
      | group here => cases eight
      | quad here => cases eight
      | more here there => simp
  | gap front back room => simp

theorem Ipv6Text.eight {text : Bytes} {groups : List Nat} (form : Ipv6Text text groups) :
    groups.length = 8 := by
  cases form with
  | full all eight => exact eight
  | gap front back room =>
      simp only [List.length_append, List.length_replicate]
      omega

/-- The parser accepts exactly the texts of addresses, and its result is the address the text is of. -/
theorem parseIp_reads_addresses (s : Bytes) :
    (∀ out, parseIp s = some out ↔
      (QuadText s out ∧ out.length = 4) ∨
        ∃ groups, Ipv6Text s groups ∧ out = addressBytes groups ∧ out.length = 16) ∧
    ∀ other groups, Ipv6Text s groups → Ipv6Text other groups →
      parseIp s = some (addressBytes groups) ∧ parseIp other = some (addressBytes groups) := by
  have quads : ∀ {text out : Bytes}, QuadText text out → parseIp text = some out := by
    intro text out quad
    rw [parseIp, parseIpv4_iff.mpr quad]
  have forms : ∀ {text : Bytes} {groups : List Nat}, Ipv6Text text groups →
      parseIp text = some (addressBytes groups) := by
    intro text groups form
    have other : parseIpv4 text = none := by
      rw [Option.eq_none_iff_forall_ne_some]
      exact fun out quad => (parseIpv4_iff.mp quad).no_colon form.colon
    rw [parseIp, other]
    exact parseIpv6_text form
  refine ⟨fun out => ⟨?_, ?_⟩, fun other groups form another => ⟨forms form, forms another⟩⟩
  · intro parsed
    unfold parseIp at parsed
    split at parsed
    · rename_i address quad
      cases parsed
      have text := parseIpv4_iff.mp quad
      obtain ⟨a, b, c, d, rfl, -⟩ := parseIpv4_iff.mp quad
      exact .inl ⟨text, rfl⟩
    · obtain ⟨groups, form, rfl⟩ := parseIpv6_sound parsed
      exact .inr ⟨groups, form, rfl, by rw [addressBytes_length, form.eight]⟩
  · rintro (⟨quad, -⟩ | ⟨groups, form, rfl, -⟩)
    · exact quads quad
    · exact forms form

end WolfCert
