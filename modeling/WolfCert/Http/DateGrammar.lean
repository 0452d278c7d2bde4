import Mathlib.Data.List.TakeWhile
import WolfCert.Http.RetryAfter

/-!
# The layouts of an HTTP-date

The three layouts of RFC 9110, with any letters for the name of the day, and which texts
`http_date_to_unix_time` takes for one of them.
-/

namespace WolfCert.Http

open WolfCert.CLib

/-! ## Texts -/

/-- So many digits, and the number they are. -/
def Digits (count : Nat) (text : Bytes) (value : Nat) : Prop :=
  text.length = count ∧ (∀ c ∈ text, isDigit c = true) ∧ digitsValue text = value

instance (count : Nat) (text : Bytes) (value : Nat) : Decidable (Digits count text value) :=
  inferInstanceAs (Decidable (_ ∧ _))

def MonthName (text : Bytes) (month : Nat) : Prop := 1 ≤ month ∧ months[month - 1]? = some text

instance (text : Bytes) (month : Nat) : Decidable (MonthName text month) :=
  inferInstanceAs (Decidable (_ ∧ _))

/-- Hour, minute and second; the second may be a leap second. -/
def TimeText (text : Bytes) (second : Nat) : Prop :=
  ∃ h m s hour minute sec, text = h ++ 58 :: (m ++ 58 :: s) ∧ Digits 2 h hour ∧ Digits 2 m minute ∧
    Digits 2 s sec ∧ hour ≤ 23 ∧ minute ≤ 59 ∧ sec ≤ 60 ∧ second = hour * 3600 + minute * 60 + sec

def Letters (text : Bytes) : Prop := ∀ c ∈ text, isAlpha c = true

instance (text : Bytes) : Decidable (Letters text) := inferInstanceAs (Decidable (∀ c ∈ text, _))

def Blanks (text : Bytes) : Prop := ∀ c ∈ text, c = 32 ∨ c = 9

section

variable (text : Bytes) (year month day second : Nat)

/-- What follows the comma: day, month and year with `sep` between them, and the time. -/
def CommaDate (sep : UInt8) (count : Nat) : Prop :=
  ∃ d m y time blanks, Digits 2 d day ∧ MonthName m month ∧ Digits count y year ∧ TimeText time second ∧
    Blanks blanks ∧ text = d ++ sep :: (m ++ sep :: (y ++ 32 :: (time ++ (ascii " GMT" ++ blanks))))

/-- What follows the name of the day without a comma, with `pad` and so many digits for the day. -/
def SpacedDate (pad : Bytes) (count : Nat) : Prop :=
  ∃ m d time y blanks, MonthName m month ∧ Digits count d day ∧ TimeText time second ∧ Digits 4 y year ∧
    Blanks blanks ∧ text = m ++ 32 :: (pad ++ (d ++ 32 :: (time ++ 32 :: (y ++ blanks))))

/-- `Sun, 06 Nov 1994 08:49:37 GMT`. -/
def ImfText : Prop :=
  ∃ name rest, Letters name ∧ text = name ++ 44 :: 32 :: rest ∧ CommaDate rest year month day second 32 4

/-- `Sunday, 06-Nov-94 08:49:37 GMT`, the year by its last two digits. -/
def Rfc850Text : Prop :=
  ∃ name rest, Letters name ∧ text = name ++ 44 :: 32 :: rest ∧ CommaDate rest year month day second 45 2

/-- `Sun Nov  6 08:49:37 1994`; the day has two digits, or a blank and one digit. -/
def AsctimeText : Prop :=
  ∃ name rest, Letters name ∧ text = name ++ 32 :: rest ∧
    (SpacedDate rest year month day second [] 2 ∨ SpacedDate rest year month day second [32] 1)

/-- What the layout does not allow and the parser takes: one digit alone, or two behind a blank. -/
def LooseAsctimeText : Prop :=
  ∃ name rest, Letters name ∧ text = name ++ 32 :: rest ∧
    (SpacedDate rest year month day second [] 1 ∨ SpacedDate rest year month day second [32] 2)

end

/-! ## Taking them -/

theorem takeDigits_iff {p rest : Bytes} {count : Nat} {v : Int} :
    takeDigits p count count = some (v, rest) ↔
      ∃ text value, Digits count text value ∧ p = text ++ rest ∧ v = value := by
  unfold takeDigits
  dsimp only
  constructor
  · intro taken
    split at taken
    · cases taken
    · rename_i long
      simp only [Option.some.injEq, Prod.mk.injEq] at taken
      have short := (List.takeWhile_prefix (l := p.take count) isDigit).length_le
      rw [List.length_take] at short
      have size : ((p.take count).takeWhile isDigit).length = count := by omega
      refine ⟨_, _, ⟨size, fun c inside => List.mem_takeWhile_imp inside, rfl⟩, ?_, taken.1.symm⟩
      have whole : (p.take count).takeWhile isDigit = p.take count :=
        (List.takeWhile_prefix _).eq_of_length (by rw [size, List.length_take]; omega)
      rw [← taken.2, size, whole, List.take_append_drop]
  · rintro ⟨text, value, ⟨size, digits, rfl⟩, rfl, rfl⟩
    have taken : (text ++ rest).take count = text := by rw [← size, List.take_left]
    have all : text.takeWhile isDigit = text := List.takeWhile_eq_self_iff.mpr digits
    rw [taken, all, if_neg (by omega), List.drop_left]

/-- Digits up to a byte that is none. -/
theorem takeDigits_until {p rest : Bytes} {least most : Nat} {v : Int} {c : UInt8}
    (stops : isDigit c = false) :
    takeDigits p least most = some (v, c :: rest) ↔ ∃ text value, (least ≤ text.length ∧ text.length ≤ most) ∧
      Digits text.length text value ∧ p = text ++ c :: rest ∧ v = value := by
  unfold takeDigits
  dsimp only
  constructor
  · intro taken
    split at taken
    · cases taken
    · rename_i long
      simp only [Option.some.injEq, Prod.mk.injEq] at taken
      have short := (List.takeWhile_prefix (l := p.take most) isDigit).length_le
      rw [List.length_take] at short
      refine ⟨_, _, ⟨by omega, by omega⟩, ⟨rfl, fun c inside => List.mem_takeWhile_imp inside, rfl⟩, ?_,
        taken.1.symm⟩
      have front : (p.take most).takeWhile isDigit <+: p :=
        (List.takeWhile_prefix _).trans (List.take_prefix _ _)
      rw [← taken.2]
      exact (List.prefix_iff_eq_append.mp front).symm
  · rintro ⟨text, value, ⟨least', most'⟩, ⟨-, digits, rfl⟩, rfl, rfl⟩
    have taken : ((text ++ c :: rest).take most).takeWhile isDigit = text := by
      rw [List.take_append, List.take_of_length_le most', List.takeWhile_append_of_pos digits]
      cases most - text.length with
      | zero => simp
      | succ room => simp [stops]
    rw [taken, if_neg (by omega), List.drop_left]

theorem takeChar_iff {c : UInt8} {p rest : Bytes} (shown : c ≠ 0) :
    takeChar c p = some rest ↔ p = c :: rest := by
  unfold takeChar
  cases p with
  | nil => simp [charAt, Ne.symm shown]
  | cons b p =>
      by_cases same : b = c
      · simp [charAt, same]
      · simp [charAt, same]

theorem months_length : ∀ month ∈ months, month.length = 3 := by decide +kernel

theorem takeMonth_iff {p rest : Bytes} {m : Int} :
    takeMonth p = some (m, rest) ↔
      ∃ text month, MonthName text month ∧ p = text ++ rest ∧ m = month := by
  have twelve : months.length = 12 := rfl
  unfold takeMonth
  dsimp only
  constructor
  · intro taken
    split at taken
    · rename_i found
      simp only [Option.some.injEq, Prod.mk.injEq] at taken
      generalize position : months.findIdx (fun month => month.isPrefixOf p) = i at taken found
      have inside : i < months.length := found
      have here : months[i].isPrefixOf p = true := ((List.findIdx_eq inside).mp position).1
      obtain ⟨after, rfl⟩ := List.isPrefixOf_iff_prefix.mp here
      refine ⟨months[i], i + 1, ⟨by omega, ?_⟩, ?_, by rw [← taken.1]; rfl⟩
      · rw [Nat.add_sub_cancel, List.getElem?_eq_getElem inside]
      · rw [← taken.2, ← months_length _ (List.getElem_mem inside), List.drop_left]
    · cases taken
  · rintro ⟨text, month, ⟨first, named⟩, rfl, rfl⟩
    obtain ⟨inside, rfl⟩ := List.getElem?_eq_some_iff.mp named
    have position : months.findIdx (fun name => name.isPrefixOf (months[month - 1] ++ rest)) = month - 1 := by
      rw [List.findIdx_eq inside]
      refine ⟨by simp, fun j earlier => ?_⟩
      rw [Bool.eq_false_iff]
      intro same
      have before : j < months.length := by omega
      have size := months_length _ (List.getElem_mem before)
      have size' := months_length _ (List.getElem_mem inside)
      have equal : months[j] = months[month - 1] :=
        (List.prefix_of_prefix_length_le (List.isPrefixOf_iff_prefix.mp same) (List.prefix_append _ _)
          (by rw [size, size'])).eq_of_length (by rw [size, size'])
      have distinct : months.Nodup := by decide +kernel
      exact absurd (List.getElem_inj distinct |>.mp equal) (Nat.ne_of_lt earlier)
    have within : month - 1 < 12 := inside
    rw [position, if_pos within]
    simp only [Option.some.injEq, Prod.mk.injEq]
    refine ⟨by omega, ?_⟩
    rw [← months_length _ (List.getElem_mem inside), List.drop_left]

theorem takeTimeOfDay_iff {p rest : Bytes} {v : Int} :
    takeTimeOfDay p = some (v, rest) ↔ ∃ text second, TimeText text second ∧ p = text ++ rest ∧ v = second := by
  simp only [takeTimeOfDay, Option.bind_eq_bind, Option.bind_eq_some_iff]
  constructor
  · rintro ⟨⟨hour, p₁⟩, hours, p₂, colon, ⟨minute, p₃⟩, minutes, p₄, colon', ⟨sec, p₅⟩, seconds, ended⟩
    obtain ⟨h, hour, hour', rfl, rfl⟩ := takeDigits_iff.mp hours
    obtain rfl := (takeChar_iff (by decide)).mp colon
    obtain ⟨m, minute, minute', rfl, rfl⟩ := takeDigits_iff.mp minutes
    obtain rfl := (takeChar_iff (by decide)).mp colon'
    obtain ⟨s, sec, sec', rfl, rfl⟩ := takeDigits_iff.mp seconds
    dsimp only at ended
    split at ended
    · cases ended
    · rename_i bounds
      simp only [Option.some.injEq, Prod.mk.injEq] at ended
      obtain ⟨rfl, rfl⟩ := ended
      exact ⟨h ++ 58 :: (m ++ 58 :: s), hour * 3600 + minute * 60 + sec,
        ⟨h, m, s, hour, minute, sec, rfl, hour', minute', sec', by omega, by omega, by omega, rfl⟩,
        by simp, by omega⟩
  · rintro ⟨_, _, ⟨h, m, s, hour, minute, sec, rfl, hours, minutes, seconds, bound, bound', bound'', rfl⟩,
      rfl, rfl⟩
    refine ⟨(hour, 58 :: (m ++ 58 :: (s ++ rest))), takeDigits_iff.mpr ⟨h, hour, hours, by simp, rfl⟩,
      _, (takeChar_iff (by decide)).mpr rfl, (minute, 58 :: (s ++ rest)),
      takeDigits_iff.mpr ⟨m, minute, minutes, by simp, rfl⟩, _, (takeChar_iff (by decide)).mpr rfl,
      (sec, rest), takeDigits_iff.mpr ⟨s, sec, seconds, rfl, rfl⟩, ?_⟩
    rw [if_neg (by omega), Option.some.injEq, Prod.mk.injEq]
    exact ⟨by omega, rfl⟩

theorem onlyOws_iff {p : Bytes} : onlyOws p = true ↔ Blanks p := by
  simp only [onlyOws, Blanks, beq_iff_eq, List.dropWhile_eq_nil_iff, Bool.or_eq_true]

/-! ## The layouts -/

theorem gmt_iff {p : Bytes} :
    ((ascii " GMT").isPrefixOf p && onlyOws (p.drop 4)) = true ↔
      ∃ blanks, Blanks blanks ∧ p = ascii " GMT" ++ blanks := by
  have size : (ascii " GMT").length = 4 := rfl
  rw [Bool.and_eq_true, List.isPrefixOf_iff_prefix, onlyOws_iff]
  constructor
  · rintro ⟨⟨blanks, rfl⟩, only⟩
    rw [← size, List.drop_left] at only
    exact ⟨blanks, only, rfl⟩
  · rintro ⟨blanks, only, rfl⟩
    rw [← size, List.drop_left]
    exact ⟨List.prefix_append _ _, only⟩

/-- What `takeCommaDate` does behind the separator that follows the day. -/
def takeCommaRest (sep : UInt8) (count : Nat) (twoDigit : Bool) (day : Int) (p : Bytes) : Option HttpDate := do
  let (mon, p) ← takeMonth p
  let p ← takeChar sep p
  let (year, p) ← takeDigits p count count
  let p ← takeChar 32 p
  let (tod, p) ← takeTimeOfDay p
  if (ascii " GMT").isPrefixOf p && onlyOws (p.drop 4) then some { day, mon, year, tod, twoDigit } else none

theorem takeCommaDate_eq (p : Bytes) : takeCommaDate p = (takeDigits p 2 2).bind fun taken =>
    if charAt taken.2 = 32 then takeCommaRest 32 4 false taken.1 taken.2.tail
    else if charAt taken.2 = 45 then takeCommaRest 45 2 true taken.1 taken.2.tail
    else none := rfl

theorem takeCommaRest_iff {sep : UInt8} (shown : sep ≠ 0) {count : Nat} {twoDigit : Bool} {day : Int}
    {p : Bytes} {date : HttpDate} :
    takeCommaRest sep count twoDigit day p = some date ↔ ∃ m y time blanks month year second,
      MonthName m month ∧ Digits count y year ∧ TimeText time second ∧ Blanks blanks ∧
      p = m ++ sep :: (y ++ 32 :: (time ++ (ascii " GMT" ++ blanks))) ∧
      date = ⟨day, month, year, second, twoDigit⟩ := by
  simp only [takeCommaRest, Option.bind_eq_bind, Option.bind_eq_some_iff]
  constructor
  · rintro ⟨⟨mon, p₁⟩, named, p₂, first, ⟨yr, p₃⟩, years, p₄, blank, ⟨tod, p₅⟩, timed, ended⟩
    obtain ⟨m, month, month', rfl, rfl⟩ := takeMonth_iff.mp named
    obtain rfl := (takeChar_iff shown).mp first
    obtain ⟨y, year, year', rfl, rfl⟩ := takeDigits_iff.mp years
    obtain rfl := (takeChar_iff (by decide)).mp blank
    obtain ⟨time, second, time', rfl, rfl⟩ := takeTimeOfDay_iff.mp timed
    dsimp only at ended
    split at ended
    · rename_i gmt
      obtain ⟨blanks, only, rfl⟩ := gmt_iff.mp gmt
      exact ⟨m, y, time, blanks, month, year, second, month', year', time', only, rfl,
        (Option.some.inj ended).symm⟩
    · cases ended
  · rintro ⟨m, y, time, blanks, month, year, second, month', year', time', only, rfl, rfl⟩
    refine ⟨(month, _), takeMonth_iff.mpr ⟨m, month, month', rfl, rfl⟩, _, (takeChar_iff shown).mpr rfl,
      (year, _), takeDigits_iff.mpr ⟨y, year, year', rfl, rfl⟩, _, (takeChar_iff (by decide)).mpr rfl,
      (second, _), takeTimeOfDay_iff.mpr ⟨time, second, time', rfl, rfl⟩, ?_⟩
    exact if_pos (gmt_iff.mpr ⟨blanks, only, rfl⟩)

theorem takeCommaDate_iff {p : Bytes} {date : HttpDate} :
    takeCommaDate p = some date ↔ ∃ year month day second : Nat,
      CommaDate p year month day second 32 4 ∧ date = ⟨day, month, year, second, false⟩ ∨
      CommaDate p year month day second 45 2 ∧ date = ⟨day, month, year, second, true⟩ := by
  rw [takeCommaDate_eq, Option.bind_eq_some_iff]
  constructor
  · rintro ⟨⟨v, q⟩, days, run⟩
    obtain ⟨d, day, day', rfl, rfl⟩ := takeDigits_iff.mp days
    dsimp only at run
    have begins {sep : UInt8} (shown : sep ≠ 0) (here : charAt q = sep) : q = sep :: q.tail := by
      cases q with
      | nil => exact absurd here.symm shown
      | cons b rest =>
          obtain rfl : b = sep := here
          rfl
    by_cases spaced : charAt q = 32
    · rw [if_pos spaced] at run
      obtain ⟨m, y, time, blanks, month, year, second, month', year', time', only, shape, rfl⟩ :=
        (takeCommaRest_iff (by decide)).mp run
      refine ⟨year, month, day, second, .inl ⟨⟨d, m, y, time, blanks, day', month', year', time', only, ?_⟩, rfl⟩⟩
      rw [begins (by decide) spaced, shape]
    · rw [if_neg spaced] at run
      by_cases dashed : charAt q = 45
      · rw [if_pos dashed] at run
        obtain ⟨m, y, time, blanks, month, year, second, month', year', time', only, shape, rfl⟩ :=
          (takeCommaRest_iff (by decide)).mp run
        refine ⟨year, month, day, second,
          .inr ⟨⟨d, m, y, time, blanks, day', month', year', time', only, ?_⟩, rfl⟩⟩
        rw [begins (by decide) dashed, shape]
      · rw [if_neg dashed] at run
        cases run
  · rintro ⟨year, month, day, second, ⟨⟨d, m, y, time, blanks, day', month', year', time', only, rfl⟩, rfl⟩ |
      ⟨⟨d, m, y, time, blanks, day', month', year', time', only, rfl⟩, rfl⟩⟩
    · refine ⟨(day, _), takeDigits_iff.mpr ⟨d, day, day', rfl, rfl⟩, ?_⟩
      exact (takeCommaRest_iff (by decide)).mpr
        ⟨m, y, time, blanks, month, year, second, month', year', time', only, rfl, rfl⟩
    · refine ⟨(day, _), takeDigits_iff.mpr ⟨d, day, day', rfl, rfl⟩, ?_⟩
      exact (takeCommaRest_iff (by decide)).mpr
        ⟨m, y, time, blanks, month, year, second, month', year', time', only, rfl, rfl⟩

theorem takeAsctimeDate_iff {p : Bytes} {date : HttpDate} :
    takeAsctimeDate p = some date ↔ ∃ year month day second : Nat, date = ⟨day, month, year, second, false⟩ ∧
      ∃ pad count, (pad = [] ∨ pad = [32]) ∧ (count = 1 ∨ count = 2) ∧
        SpacedDate p year month day second pad count := by
  simp only [takeAsctimeDate, Option.bind_eq_bind, Option.bind_eq_some_iff]
  constructor
  · rintro ⟨⟨mon, p₁⟩, named, p₂, blank, ⟨v, p₃⟩, days, p₄, blank', ⟨tod, p₅⟩, timed, p₆, blank'', ⟨yr, p₇⟩,
      years, ended⟩
    obtain ⟨m, month, month', rfl, rfl⟩ := takeMonth_iff.mp named
    obtain rfl := (takeChar_iff (by decide)).mp blank
    obtain rfl := (takeChar_iff (by decide)).mp blank'
    obtain ⟨d, day, ⟨least, most⟩, day', shape, rfl⟩ := (takeDigits_until (by decide)).mp days
    obtain ⟨time, second, time', rfl, rfl⟩ := takeTimeOfDay_iff.mp timed
    obtain rfl := (takeChar_iff (by decide)).mp blank''
    obtain ⟨y, year, year', rfl, rfl⟩ := takeDigits_iff.mp years
    dsimp only at ended
    split at ended
    · rename_i only
      refine ⟨year, month, day, second, (Option.some.inj ended).symm, if charAt p₂ = 32 then [32] else [],
        d.length, ?_, by omega, m, d, time, y, p₇, month', day', time', year', onlyOws_iff.mp only, ?_⟩
      · split
        · exact .inr rfl
        · exact .inl rfl
      · by_cases padded : charAt p₂ = 32
        · rw [if_pos padded] at shape ⊢
          cases p₂ with
          | nil => cases padded
          | cons b rest =>
              obtain rfl : b = 32 := padded
              rw [← shape]
              rfl
        · rw [if_neg padded] at shape ⊢
          rw [shape]
          rfl
    · cases ended
  · rintro ⟨year, month, day, second, rfl, pad, count, pads, counts, m, d, time, y, blanks, month', day', time',
      year', only, rfl⟩
    have unpadded (rest : Bytes) : (if charAt (pad ++ (d ++ rest)) = 32 then (pad ++ (d ++ rest)).tail
        else pad ++ (d ++ rest)) = d ++ rest := by
      rcases pads with rfl | rfl
      · obtain ⟨size, digits, -⟩ := day'
        obtain ⟨c, later, rfl⟩ := List.exists_cons_of_ne_nil (l := d) (by
          rintro rfl
          simp at size
          omega)
        have first : ¬charAt ([] ++ (c :: later ++ rest)) = 32 := by
          rintro (rfl : c = 32)
          exact absurd (digits 32 List.mem_cons_self) (by decide)
        rw [if_neg first]
        rfl
      · exact if_pos rfl
    refine ⟨(month, _), takeMonth_iff.mpr ⟨m, month, month', rfl, rfl⟩, _, (takeChar_iff (by decide)).mpr rfl,
      (day, 32 :: (time ++ 32 :: (y ++ blanks))), ?_, _, (takeChar_iff (by decide)).mpr rfl,
      (second, _), takeTimeOfDay_iff.mpr ⟨time, second, time', rfl, rfl⟩, _, (takeChar_iff (by decide)).mpr rfl,
      (year, blanks), takeDigits_iff.mpr ⟨y, year, year', rfl, rfl⟩, if_pos (onlyOws_iff.mpr only)⟩
    rw [unpadded]
    have size := day'.1
    exact (takeDigits_until (by decide)).mpr ⟨d, day, by omega, ⟨rfl, day'.2⟩, rfl, rfl⟩

theorem dropWhile_letters {name rest : Bytes} {c : UInt8} (letters : Letters name) (other : isAlpha c = false) :
    (name ++ c :: rest).dropWhile isAlpha = c :: rest := by
  rw [List.dropWhile_append_of_pos letters, List.dropWhile_cons, if_neg (by simp [other])]

/-- The parser takes the three layouts and the loose form of the third one. -/
theorem takeHttpDate_iff {s : Bytes} {date : HttpDate} :
    takeHttpDate s = some date ↔ ∃ year month day second : Nat,
      (ImfText s year month day second ∨ AsctimeText s year month day second ∨
        LooseAsctimeText s year month day second) ∧ date = ⟨day, month, year, second, false⟩ ∨
      Rfc850Text s year month day second ∧ date = ⟨day, month, year, second, true⟩ := by
  have letters : Letters (s.takeWhile isAlpha) := fun c inside => List.mem_takeWhile_imp inside
  have whole : s = s.takeWhile isAlpha ++ s.dropWhile isAlpha := List.takeWhile_append_dropWhile.symm
  constructor
  · intro taken
    unfold takeHttpDate at taken
    generalize s.dropWhile isAlpha = p at taken whole
    dsimp only at taken
    split at taken
    · rename_i comma
      obtain ⟨rest, rfl⟩ : ∃ rest, p = 44 :: 32 :: rest := by
        match p, comma with
        | b :: c :: rest, ⟨first, next⟩ =>
            obtain rfl : b = 44 := first
            obtain rfl : c = 32 := next
            exact ⟨rest, rfl⟩
      obtain ⟨year, month, day, second, ⟨date', rfl⟩ | ⟨date', rfl⟩⟩ := takeCommaDate_iff.mp taken
      · exact ⟨year, month, day, second, .inl ⟨.inl ⟨_, rest, letters, whole, date'⟩, rfl⟩⟩
      · exact ⟨year, month, day, second, .inr ⟨⟨_, rest, letters, whole, date'⟩, rfl⟩⟩
    · split at taken
      · rename_i blank
        obtain ⟨rest, rfl⟩ : ∃ rest, p = 32 :: rest := by
          cases p with
          | nil => cases blank
          | cons b rest =>
              obtain rfl : b = 32 := blank
              exact ⟨rest, rfl⟩
        obtain ⟨year, month, day, second, rfl, pad, count, rfl | rfl, rfl | rfl, date'⟩ :=
          takeAsctimeDate_iff.mp taken
        · exact ⟨year, month, day, second, .inl ⟨.inr (.inr ⟨_, rest, letters, whole, .inl date'⟩), rfl⟩⟩
        · exact ⟨year, month, day, second, .inl ⟨.inr (.inl ⟨_, rest, letters, whole, .inl date'⟩), rfl⟩⟩
        · exact ⟨year, month, day, second, .inl ⟨.inr (.inl ⟨_, rest, letters, whole, .inr date'⟩), rfl⟩⟩
        · exact ⟨year, month, day, second, .inl ⟨.inr (.inr ⟨_, rest, letters, whole, .inr date'⟩), rfl⟩⟩
      · cases taken
  · have comma {name rest : Bytes} (named : Letters name) :
        takeHttpDate (name ++ 44 :: 32 :: rest) = takeCommaDate rest := by
      rw [takeHttpDate, dropWhile_letters named (by decide)]
      rfl
    have spaced {name rest : Bytes} (named : Letters name) :
        takeHttpDate (name ++ 32 :: rest) = takeAsctimeDate rest := by
      rw [takeHttpDate, dropWhile_letters named (by decide)]
      rfl
    rintro ⟨year, month, day, second, ⟨⟨name, rest, named, rfl, date'⟩ | ⟨name, rest, named, rfl, date'⟩ |
      ⟨name, rest, named, rfl, date'⟩, rfl⟩ | ⟨⟨name, rest, named, rfl, date'⟩, rfl⟩⟩
    · rw [comma named]
      exact takeCommaDate_iff.mpr ⟨year, month, day, second, .inl ⟨date', rfl⟩⟩
    · rw [spaced named]
      refine takeAsctimeDate_iff.mpr ⟨year, month, day, second, rfl, ?_⟩
      rcases date' with date' | date'
      · exact ⟨[], 2, .inl rfl, .inr rfl, date'⟩
      · exact ⟨[32], 1, .inr rfl, .inl rfl, date'⟩
    · rw [spaced named]
      refine takeAsctimeDate_iff.mpr ⟨year, month, day, second, rfl, ?_⟩
      rcases date' with date' | date'
      · exact ⟨[], 1, .inl rfl, .inl rfl, date'⟩
      · exact ⟨[32], 2, .inr rfl, .inr rfl, date'⟩
    · rw [comma named]
      exact takeCommaDate_iff.mpr ⟨year, month, day, second, .inr ⟨date', rfl⟩⟩

end WolfCert.Http
