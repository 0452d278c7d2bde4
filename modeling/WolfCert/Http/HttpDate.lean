import WolfCert.CLib.Calendar
import WolfCert.Http.DateGrammar

/-!
# HTTP-dates

The seconds that `http_date_to_unix_time` makes of a date, against the calendar.
-/

namespace WolfCert.Http

open WolfCert.CLib WolfCert.CLib.Calendar

/-! ## Eras -/

/-- The days of the years before, counted from March, in eras of 400 years. -/
theorem era_days {y : Int} (start : -1 ≤ y) :
    let era := (if y ≥ 0 then y else y - 399).tdiv 400
    let yoe := y - era * 400
    era * 146097 + yoe * 365 + yoe.tdiv 4 - yoe.tdiv 100 = 365 * y + y / 4 - y / 100 + y / 400 := by
  intro era yoe
  by_cases past : y ≥ 0
  · have floor : era = y / 400 := by
      simp only [era, if_pos past, Int.tdiv_eq_ediv_of_nonneg past]
    have within : 0 ≤ yoe := by omega
    rw [Int.tdiv_eq_ediv_of_nonneg within, Int.tdiv_eq_ediv_of_nonneg within]
    omega
  · obtain rfl : y = -1 := by omega
    decide

/-- The same days counted from January, for the months after February and for the two before. -/
theorem daysBeforeYear_march (year : Nat) :
    let days := fun y : Int => 365 * y + y / 4 - y / 100 + y / 400
    (daysBeforeYear year : Int) + (if IsLeap year then 1 else 0) = days year + 1 ∧
      (daysBeforeYear year : Int) = days ((year : Int) - 1) + 366 := by
  intro days
  rw [daysBeforeYear_eq]
  dsimp only [days]
  constructor
  · have raised := leapDays_succ year
    have fourth : (year + 4 : Int) / 4 = (year : Int) / 4 + 1 := by omega
    have century : (year + 100 : Int) / 100 = (year : Int) / 100 + 1 := by omega
    have era : (year + 400 : Int) / 400 = (year : Int) / 400 + 1 := by omega
    rw [fourth, century, era] at raised
    linarith
  · have fourth : (year + 3 : Int) / 4 = (year - 1 : Int) / 4 + 1 := by omega
    have century : (year + 99 : Int) / 100 = (year - 1 : Int) / 100 + 1 := by omega
    have era : (year + 399 : Int) / 400 = (year - 1 : Int) / 400 + 1 := by omega
    omega

theorem dayNumber_epoch : dayNumber 1970 1 1 = 719528 := by
  rw [dayNumber, daysBeforeYear_eq, daysBeforeMonth_eq 1970 (by decide)]
  rfl

/-- The conversion counts the seconds of the calendar; a day that a month does not have is a day of the
next one. -/
theorem dateToUnixTime_eq {year month : Nat} (range : 1 ≤ month ∧ month ≤ 12) (day second : Nat) :
    dateToUnixTime year month day second = unixSeconds year month day second := by
  have months := daysBeforeMonth_eq year ⟨range.1, range.2.trans (by decide)⟩
  rw [unixSeconds, dayNumber_epoch, dayNumber, months]
  generalize table : [0, 31, 59, 90, 120, 151, 181, 212, 243, 273, 304, 334, 365].getD (month - 1) 0 = before
  obtain ⟨after, early⟩ := daysBeforeYear_march year
  obtain ⟨first, last⟩ := range
  by_cases late : 2 < month
  · have eras := era_days (by omega : -1 ≤ (year : Int))
    have doy : (153 * ((month : Int) + -3) + 2).tdiv 5 = (before : Int) - 59 := by
      rw [← table]
      interval_cases month <;> rfl
    have notEarly : ¬(month : Int) ≤ 2 := by omega
    have isLate : (month : Int) > 2 := by omega
    simp only [dateToUnixTime, if_neg notEarly, if_pos isLate, Int.sub_zero, late, true_and, doy] at eras ⊢
    rw [eras]
    push_cast
    linarith
  · have eras := era_days (by omega : -1 ≤ (year : Int) - 1)
    have doy : (153 * ((month : Int) + 9) + 2).tdiv 5 = (before : Int) + 306 := by
      rw [← table]
      interval_cases month <;> rfl
    have isEarly : (month : Int) ≤ 2 := by omega
    have notLate : ¬(month : Int) > 2 := by omega
    simp only [dateToUnixTime, if_pos isEarly, if_neg notLate, late, false_and, if_false, doy] at eras ⊢
    rw [eras]
    push_cast
    linarith

/-- The end of `http_date_to_unix_time`: the date in a year that is chosen. -/
def secondsInYear (date : HttpDate) (year : Int) : Option Int :=
  let leap := decide (year.tmod 4 = 0 ∧ year.tmod 100 ≠ 0 ∨ year.tmod 400 = 0)
  if date.day < 1 ∨ date.day > monthDays.getD (date.mon.toNat - 1) 0 ∨
      (date.mon = 2 ∧ date.day = 29 ∧ leap = false) then none
  else some (dateToUnixTime year date.mon date.day date.tod)

theorem httpDateToUnixTime_eq (s : Bytes) (now : Int) :
    httpDateToUnixTime s now = (takeHttpDate s).bind fun date => secondsInYear date
      (if date.twoDigit then advanceCentury date.mon date.day date.tod now (now.toNat + 1) (date.year + 1900)
        else date.year) := rfl

theorem monthLength_eq (year : Nat) {month : Nat} (range : 1 ≤ month ∧ month ≤ 12) :
    (monthLength year month : Int) =
      monthDays.getD (month - 1) 0 - if month = 2 ∧ ¬IsLeap year then 1 else 0 := by
  obtain ⟨first, last⟩ := range
  by_cases leap : IsLeap year
  · interval_cases month <;> simp [monthLength, monthDays, leap]
  · interval_cases month <;> simp [monthLength, monthDays, leap]

theorem leap_iff (year : Nat) :
    ((year : Int).tmod 4 = 0 ∧ (year : Int).tmod 100 ≠ 0 ∨ (year : Int).tmod 400 = 0) ↔ IsLeap year := by
  have positive : (0 : Int) ≤ year := Int.natCast_nonneg year
  rw [Int.tmod_eq_emod_of_nonneg positive, Int.tmod_eq_emod_of_nonneg positive,
    Int.tmod_eq_emod_of_nonneg positive]
  unfold IsLeap
  omega

/-- Exactly the dates of the calendar are converted. -/
theorem secondsInYear_eq {month : Nat} (range : 1 ≤ month ∧ month ≤ 12) (year day second : Nat)
    (written : Int) (twoDigit : Bool) :
    secondsInYear ⟨day, month, written, second, twoDigit⟩ year =
      if IsDate year month day then some (unixSeconds year month day second) else none := by
  have length := monthLength_eq year range
  have position : (month : Int).toNat - 1 = month - 1 := by rw [Int.toNat_natCast]
  have february : month = 2 → monthDays.getD (month - 1) 0 = 29 := by
    rintro rfl
    rfl
  have refused : ((day : Int) < 1 ∨ (day : Int) > monthDays.getD ((month : Int).toNat - 1) 0 ∨
      ((month : Int) = 2 ∧ (day : Int) = 29 ∧ decide ((year : Int).tmod 4 = 0 ∧ (year : Int).tmod 100 ≠ 0 ∨
        (year : Int).tmod 400 = 0) = false)) ↔ ¬IsDate year month day := by
    rw [decide_eq_false_iff_not, leap_iff, position]
    unfold IsDate
    by_cases leap : IsLeap year
    · simp only [leap, not_true_eq_false, and_false, if_false, or_false] at length ⊢
      omega
    · simp only [leap, not_false_eq_true, and_true] at length ⊢
      split at length
      · rename_i second
        have days := february second
        omega
      · omega
  unfold secondsInYear
  by_cases date : IsDate year month day
  · rw [if_pos date]
    exact (if_neg (mt refused.mp (not_not.mpr date))).trans (by rw [dateToUnixTime_eq range])
  · rw [if_neg date]
    exact if_pos (refused.mpr date)

/-! ## Two-digit years -/

def intMax : Int := 2147483647

/-- The century loop with the `int` years of the source; `none` where one of them overflows. -/
def advanceCenturyInt (mon day tod now : Int) : Nat → Int → Option Int
  | 0, _ => none
  | fuel + 1, year =>
      if year + 50 > intMax then none
      else if dateToUnixTime (year + 50) mon day tod ≤ now then
        if year + 100 > intMax then none else advanceCenturyInt mon day tod now fuel (year + 100)
      else some year

/-- What `http_date_to_unix_time` returns, if its arithmetic is defined. -/
def httpDateReturn (s : Bytes) (now : Int) : Option Int :=
  match takeHttpDate s with
  | none => some (-1)
  | some date =>
      (if date.twoDigit then
        advanceCenturyInt date.mon date.day date.tod now (now.toNat + 1) (date.year + 1900)
       else some date.year).map fun year => (secondsInYear date year).getD (-1)

theorem advanceCenturyInt_eq {mon day tod now year chosen : Int} {fuel : Nat}
    (run : advanceCenturyInt mon day tod now fuel year = some chosen) :
    advanceCentury mon day tod now fuel year = chosen := by
  induction fuel generalizing year with
  | zero => cases run
  | succ fuel ih =>
      simp only [advanceCenturyInt] at run
      rw [advanceCentury]
      split at run
      · cases run
      · split at run
        · rename_i past
          rw [if_pos past]
          split at run
          · cases run
          · exact ih run
        · rename_i future
          rw [if_neg future]
          exact Option.some.inj run

/-- Where the return value is defined, it is the one that is read from the header. -/
theorem httpDateReturn_eq {s : Bytes} {now value : Int} (returned : httpDateReturn s now = some value) :
    (httpDateToUnixTime s now).getD (-1) = value := by
  unfold httpDateReturn at returned
  rw [httpDateToUnixTime_eq]
  cases taken : takeHttpDate s with
  | none =>
      rw [taken] at returned
      exact Option.some.inj returned
  | some date =>
      simp only [taken] at returned
      obtain ⟨year, chosen, rfl⟩ := Option.map_eq_some_iff.mp returned
      rw [Option.bind_some]
      by_cases two : date.twoDigit = true
      · rw [if_pos two] at chosen ⊢
        rw [advanceCenturyInt_eq chosen]
      · rw [if_neg two] at chosen ⊢
        rw [Option.some.inj chosen]

/-- The clock is less than 50 years before and at most 50 years after the date in that year. -/
def InWindow (now : Int) (year month day second : Nat) : Prop :=
  unixSeconds (year - 50) month day second ≤ now ∧ now < unixSeconds (year + 50) month day second

section Century

variable {now : Int} {month day second : Nat}

theorem InWindow.unique (range : 1 ≤ month ∧ month ≤ 12) {year other : Nat}
    (window : InWindow now year month day second) (window' : InWindow now other month day second)
    (same : year % 100 = other % 100) : year = other := by
  have apart {a b : Nat} (later : a + 100 ≤ b) (ends : now < unixSeconds (a + 50) month day second)
      (begins : unixSeconds (b - 50) month day second ≤ now) : False := by
    have order := unixSeconds_add (a + 50) (b - 50 - (a + 50)) range day second
    rw [show a + 50 + (b - 50 - (a + 50)) = b - 50 by omega] at order
    omega
  rcases Nat.lt_trichotomy year other with before | equal | after
  · exact (apart (by omega) window.2 window'.1).elim
  · exact equal
  · exact (apart (by omega) window'.2 window.1).elim

theorem advanceCenturyInt_succ (range : 1 ≤ month ∧ month ≤ 12) (fuel start : Nat) :
    advanceCenturyInt month day second now (fuel + 1) start =
      if ((start + 50 : Nat) : Int) > intMax then none
      else if unixSeconds (start + 50) month day second ≤ now then
        if ((start + 100 : Nat) : Int) > intMax then none
        else advanceCenturyInt month day second now fuel (start + 100 : Nat)
      else some start := by
  rw [← dateToUnixTime_eq range]
  rfl

/-- What the loop returns: the first year of that ending whose window is not over. -/
theorem advanceCenturyInt_found (range : 1 ≤ month ∧ month ≤ 12) {fuel start : Nat} {chosen : Int}
    (run : advanceCenturyInt month day second now fuel start = some chosen) :
    ∃ centuries : Nat, chosen = (start + 100 * centuries : Nat) ∧ chosen + 50 ≤ intMax ∧
      now < unixSeconds (start + 100 * centuries + 50) month day second ∧
      (centuries = 0 ∨ unixSeconds (start + 100 * centuries - 50) month day second ≤ now) := by
  induction fuel generalizing start with
  | zero => cases run
  | succ fuel ih =>
      rw [advanceCenturyInt_succ range] at run
      split at run
      · cases run
      · rename_i small
        split at run
        · rename_i past
          split at run
          · cases run
          · obtain ⟨centuries, same, fits, ends, begins⟩ := ih run
            have shift : start + 100 * (centuries + 1) = start + 100 + 100 * centuries := by omega
            refine ⟨centuries + 1, shift ▸ same, fits, shift ▸ ends, .inr ?_⟩
            rw [shift]
            rcases begins with rfl | begins
            · exact past
            · exact begins
        · rename_i future
          cases run
          exact ⟨0, rfl, Int.not_lt.mp small, Int.not_le.mp future, .inl rfl⟩

theorem advanceCenturyInt_finds (range : 1 ≤ month ∧ month ≤ 12) {centuries fuel start : Nat}
    (fits : ((start + 100 * centuries + 50 : Nat) : Int) ≤ intMax)
    (ends : now < unixSeconds (start + 100 * centuries + 50) month day second) (enough : centuries < fuel) :
    ∃ chosen, advanceCenturyInt month day second now fuel start = some chosen := by
  induction centuries generalizing fuel start with
  | zero =>
      obtain ⟨fuel, rfl⟩ : ∃ k, fuel = k + 1 := ⟨fuel - 1, by omega⟩
      rw [advanceCenturyInt_succ range, if_neg (Int.not_lt.mpr fits), if_neg (Int.not_le.mpr ends)]
      exact ⟨_, rfl⟩
  | succ centuries ih =>
      obtain ⟨fuel, rfl⟩ : ∃ k, fuel = k + 1 := ⟨fuel - 1, by omega⟩
      have shift : start + 100 * (centuries + 1) = start + 100 + 100 * centuries := by omega
      rw [shift] at fits ends
      rw [advanceCenturyInt_succ range, if_neg (by omega)]
      split
      · rw [if_neg (by omega)]
        exact ih fits ends (by omega)
      · exact ⟨_, rfl⟩

/-- The loop ends within as many turns as the clock has seconds. -/
theorem century_enough (range : 1 ≤ month ∧ month ≤ 12) (set : clockFloor ≤ now) (yy : Nat) :
    now < unixSeconds (yy + 1900 + 100 * now.toNat + 50) month day second := by
  have order := unixSeconds_add 1950 (yy + 100 * now.toNat) range day second
  rw [show 1950 + (yy + 100 * now.toNat) = yy + 1900 + 100 * now.toNat + 50 by omega] at order
  have least : -631238400 ≤ unixSeconds 1950 month day second := by
    have years : (daysBeforeYear 1950 : Int) = 712223 := by
      rw [daysBeforeYear_eq]
      rfl
    rw [unixSeconds, dayNumber_epoch, dayNumber, years]
    omega
  unfold clockFloor at set
  omega

/-- A two-digit year of the last century ends its window before any clock that is set. -/
theorem century_begun (range : 1 ≤ month ∧ month ≤ 12) (set : clockFloor ≤ now) {yy : Nat} (two : yy < 100)
    (days : day ≤ 99) (seconds : second ≤ 86400) : unixSeconds (yy + 1900 - 50) month day second ≤ now := by
  have order := unixSeconds_add (yy + 1900 - 50) (99 - yy) range day second
  rw [show yy + 1900 - 50 + (99 - yy) = 1949 by omega] at order
  have most : unixSeconds 1949 month day second ≤ 0 := by
    have years : (daysBeforeYear 1949 : Int) = 711858 := by
      rw [daysBeforeYear_eq]
      rfl
    have months : daysBeforeMonth 1949 month ≤ 365 := by
      rw [daysBeforeMonth_eq 1949 ⟨range.1, range.2.trans (by decide)⟩]
      obtain ⟨first, last⟩ := range
      interval_cases month <;> decide
    rw [unixSeconds, dayNumber_epoch, dayNumber, years]
    omega
  unfold clockFloor at set
  omega

/-- The loop returns a year, the only one of that ending whose window holds the clock. -/
def CenturyLaw (now : Int) (yy month day second : Nat) : Prop :=
  ∃ year : Nat, advanceCenturyInt month day second now (now.toNat + 1) (yy + 1900 : Nat) = some (year : Int) ∧
    year % 100 = yy ∧ InWindow now year month day second ∧
    ∀ other, other % 100 = yy → InWindow now other month day second → other = year

/-- Some year of that ending whose window is not over yet is an `int`, as is the end of its window. -/
def CenturyFits (now : Int) (yy month day second : Nat) : Prop :=
  ∃ year : Nat, year % 100 = yy ∧ ((year + 50 : Nat) : Int) ≤ intMax ∧
    now < unixSeconds (year + 50) month day second

theorem centuryLaw_iff (range : 1 ≤ month ∧ month ≤ 12) (set : clockFloor ≤ now) {yy : Nat} (two : yy < 100)
    (days : day ≤ 99) (seconds : second ≤ 86400) :
    CenturyLaw now yy month day second ↔ CenturyFits now yy month day second := by
  constructor
  · rintro ⟨year, run, ending, window, -⟩
    obtain ⟨_, _, fits, -⟩ := advanceCenturyInt_found range run
    exact ⟨year, ending, fits, window.2⟩
  · rintro ⟨year, ending, fits, ends⟩
    -- The loop passes the centuries up to that year, and no more than its turns allow.
    obtain ⟨centuries, fits, ends, enough⟩ : ∃ centuries,
        ((yy + 1900 + 100 * centuries + 50 : Nat) : Int) ≤ intMax ∧
        now < unixSeconds (yy + 1900 + 100 * centuries + 50) month day second ∧ centuries < now.toNat + 1 := by
      obtain ⟨centuries, fits, ends⟩ : ∃ centuries,
          ((yy + 1900 + 100 * centuries + 50 : Nat) : Int) ≤ intMax ∧
          now < unixSeconds (yy + 1900 + 100 * centuries + 50) month day second := by
        rcases Nat.le_total (yy + 1900) year with late | early
        · refine ⟨(year - (yy + 1900)) / 100, ?_⟩
          rw [show yy + 1900 + 100 * ((year - (yy + 1900)) / 100) = year by omega]
          exact ⟨fits, ends⟩
        · have order := unixSeconds_add (year + 50) (yy + 1900 - year) range day second
          rw [show year + 50 + (yy + 1900 - year) = yy + 1900 + 100 * 0 + 50 by omega] at order
          exact ⟨0, by unfold intMax; omega, by omega⟩
      by_cases soon : centuries < now.toNat + 1
      · exact ⟨centuries, fits, ends, soon⟩
      · exact ⟨now.toNat, by omega, century_enough range set yy, Nat.lt_succ_self _⟩
    obtain ⟨chosen, run⟩ := advanceCenturyInt_finds range fits ends enough
    obtain ⟨passed, rfl, -, ends, begins⟩ := advanceCenturyInt_found range run
    have window : InWindow now (yy + 1900 + 100 * passed) month day second := by
      refine ⟨?_, ends⟩
      rcases begins with rfl | begins
      · exact century_begun range set two days seconds
      · exact begins
    have ending : (yy + 1900 + 100 * passed) % 100 = yy := by omega
    exact ⟨_, run, ending, window, fun other same window' =>
      window'.unique range window (same.trans ending.symm)⟩

end Century

/-! ## Dates -/

theorem digitsValue_lt {text : Bytes} (digits : ∀ c ∈ text, isDigit c = true) :
    digitsValue text < 10 ^ text.length := by
  induction text using List.reverseRecOn with
  | nil => decide
  | append_singleton text c ih =>
      have before := ih fun d inside => digits d (List.mem_append_left _ inside)
      have digit := digits c (by simp)
      simp only [isDigit, Bool.and_eq_true, decide_eq_true_eq, UInt8.le_iff_toNat_le, UInt8.reduceToNat] at digit
      simp only [digitsValue, List.foldl_append, List.foldl_cons, List.foldl_nil, List.length_append,
        List.length_singleton, Nat.pow_succ] at before ⊢
      omega

theorem MonthName.range {text : Bytes} {month : Nat} (name : MonthName text month) :
    1 ≤ month ∧ month ≤ 12 := by
  obtain ⟨inside, -⟩ := List.getElem?_eq_some_iff.mp name.2
  have twelve : months.length = 12 := rfl
  exact ⟨name.1, by omega⟩

theorem TimeText.le {text : Bytes} {second : Nat} (time : TimeText text second) : second ≤ 86400 := by
  obtain ⟨_, _, _, hour, minute, sec, -, -, -, -, hours, minutes, seconds, rfl⟩ := time
  omega

/-- The seconds of a date, or -1 if the calendar does not have it. -/
def dateValue (year month day second : Nat) : Int :=
  if IsDate year month day then unixSeconds year month day second else -1

/-- What two digits for the day, a month name and a time allow. -/
structure Bounds (month day second : Nat) : Prop where
  range : 1 ≤ month ∧ month ≤ 12
  days : day ≤ 99
  seconds : second ≤ 86400

theorem Digits.le_two {count : Nat} {text : Bytes} {value : Nat} (digits : Digits count text value)
    (short : count ≤ 2) : value ≤ 99 := by
  obtain ⟨size, all, rfl⟩ := digits
  have limit := digitsValue_lt all
  have power : 10 ^ text.length ≤ 10 ^ 2 := Nat.pow_le_pow_right (by decide) (by omega)
  omega

theorem takeHttpDate_bounds {s : Bytes} {year month day second : Nat} {twoDigit : Bool}
    (taken : takeHttpDate s = some ⟨day, month, year, second, twoDigit⟩) : Bounds month day second := by
  have comma {text : Bytes} {year month day second count : Nat} {sep : UInt8}
      (date : CommaDate text year month day second sep count) : Bounds month day second := by
    obtain ⟨_, _, _, _, _, digits, name, -, time, -⟩ := date
    exact ⟨name.range, digits.le_two (Nat.le_refl _), time.le⟩
  have spaced {text pad : Bytes} {year month day second count : Nat} (short : count ≤ 2)
      (date : SpacedDate text year month day second pad count) : Bounds month day second := by
    obtain ⟨_, _, _, _, _, name, digits, time, -⟩ := date
    exact ⟨name.range, digits.le_two short, time.le⟩
  obtain ⟨year', month', day', second', ⟨layout, same⟩ | ⟨⟨_, _, -, -, date⟩, same⟩⟩ := takeHttpDate_iff.mp taken
  · simp only [HttpDate.mk.injEq, Int.natCast_inj] at same
    obtain ⟨rfl, rfl, rfl, rfl, -⟩ := same
    rcases layout with ⟨_, _, -, -, date⟩ | ⟨_, _, -, -, date | date⟩ | ⟨_, _, -, -, date | date⟩
    · exact comma date
    · exact spaced (by decide) date
    · exact spaced (by decide) date
    · exact spaced (by decide) date
    · exact spaced (by decide) date
  · simp only [HttpDate.mk.injEq, Int.natCast_inj] at same
    obtain ⟨rfl, rfl, rfl, rfl, -⟩ := same
    exact comma date

theorem httpDateReturn_full {s : Bytes} {year month day second : Nat} (now : Int)
    (taken : takeHttpDate s = some ⟨day, month, year, second, false⟩) :
    httpDateReturn s now = some (dateValue year month day second) := by
  simp only [httpDateReturn, taken, Bool.false_eq_true, if_false, Option.map_some,
    secondsInYear_eq (takeHttpDate_bounds taken).range, dateValue]
  split
  · rfl
  · rfl

/-- A date with a two-digit year is converted in the year that the loop chooses, if it chooses one. -/
theorem httpDateReturn_short {s : Bytes} {yy month day second : Nat} {now : Int} (set : clockFloor ≤ now)
    (two : yy < 100) (taken : takeHttpDate s = some ⟨day, month, yy, second, true⟩) :
    CenturyFits now yy month day second ∧ (∃ year, year % 100 = yy ∧ InWindow now year month day second ∧
      httpDateReturn s now = some (dateValue year month day second)) ∨
    ¬CenturyFits now yy month day second ∧ httpDateReturn s now = none := by
  obtain ⟨range, days, seconds⟩ := takeHttpDate_bounds taken
  have run : httpDateReturn s now =
      (advanceCenturyInt month day second now (now.toNat + 1) (yy + 1900 : Nat)).map
        fun year => (secondsInYear ⟨day, month, yy, second, true⟩ year).getD (-1) := by
    simp only [httpDateReturn, taken, if_true]
    rfl
  by_cases fits : CenturyFits now yy month day second
  · obtain ⟨year, found, ending, window, -⟩ := (centuryLaw_iff range set two days seconds).mpr fits
    refine .inl ⟨fits, year, ending, window, ?_⟩
    rw [run, found, Option.map_some, secondsInYear_eq range, dateValue]
    split
    · rfl
    · rfl
  · refine .inr ⟨fits, ?_⟩
    cases found : advanceCenturyInt month day second now (now.toNat + 1) (yy + 1900 : Nat) with
    | none => rw [run, found, Option.map_none]
    | some chosen =>
        obtain ⟨centuries, rfl, limit, ends, -⟩ := advanceCenturyInt_found range found
        exact absurd ⟨_, by omega, limit, ends⟩ fits

theorem Rfc850Text.two {s : Bytes} {yy month day second : Nat} (text : Rfc850Text s yy month day second) :
    yy < 100 := by
  obtain ⟨_, _, -, -, _, _, _, _, _, -, -, digits, -⟩ := text
  exact Nat.lt_succ_of_le (digits.le_two (Nat.le_refl _))

/-- The four-digit layouts convert to the value of their date, the two-digit one does in the year whose
window holds the clock, and the search for that year succeeds exactly while the years are `int`s. -/
theorem http_date_conversion (now : Int) (s : Bytes) (year month day second : Nat) :
    (ImfText s year month day second ∨ AsctimeText s year month day second →
      httpDateReturn s now = some (dateValue year month day second)) ∧
    (clockFloor ≤ now → year ≤ 9999 → InWindow now year month day second →
      Rfc850Text s (year % 100) month day second →
        httpDateReturn s now = some (dateValue year month day second)) ∧
    ∀ yy, clockFloor ≤ now → yy < 100 → Bounds month day second →
      (CenturyLaw now yy month day second ↔ CenturyFits now yy month day second) := by
  refine ⟨?_, ?_, ?_⟩
  · intro layout
    refine httpDateReturn_full now (takeHttpDate_iff.mpr ⟨year, month, day, second, .inl ⟨?_, rfl⟩⟩)
    exact layout.imp_right .inl
  · intro set modern window text
    have taken := takeHttpDate_iff.mpr ⟨_, _, _, _, .inr ⟨text, rfl⟩⟩
    have fits : CenturyFits now (year % 100) month day second :=
      ⟨year, rfl, by unfold intMax; omega, window.2⟩
    rcases httpDateReturn_short set text.two taken with ⟨-, other, ending, window', returned⟩ | ⟨broken, -⟩
    · rw [returned, window'.unique (takeHttpDate_bounds taken).range window ending]
    · exact absurd fits broken
  · intro yy set two bounds
    exact centuryLaw_iff bounds.range set two bounds.days bounds.seconds

/-- The example of RFC 9110 in its first two layouts. -/
theorem http_date_conversion_1994 :
    httpDateReturn (ascii "Sun, 06 Nov 1994 08:49:37 GMT") 0 = some 784111777 ∧
      httpDateReturn (ascii "Sunday, 06-Nov-94 08:49:37 GMT") clockFloor = some 784111777 ∧
      CenturyLaw clockFloor 94 11 6 31777 := by
  have range : 1 ≤ 11 ∧ 11 ≤ 12 := by decide
  have seconds (year : Nat) : unixSeconds year 11 6 31777 = dateToUnixTime year 11 6 31777 :=
    (dateToUnixTime_eq range 6 31777).symm
  have value : dateValue 1994 11 6 31777 = 784111777 := by
    rw [dateValue, if_pos (by decide), seconds]
    decide
  have window : InWindow clockFloor 1994 11 6 31777 := by
    rw [InWindow, seconds, seconds]
    decide
  have time : TimeText (ascii "08:49:37") 31777 :=
    ⟨ascii "08", ascii "49", ascii "37", 8, 49, 37, rfl, by decide +kernel, by decide +kernel,
      by decide +kernel, by decide, by decide, by decide, rfl⟩
  have imf : ImfText (ascii "Sun, 06 Nov 1994 08:49:37 GMT") 1994 11 6 31777 :=
    ⟨ascii "Sun", ascii "06 Nov 1994 08:49:37 GMT", by decide +kernel, rfl, ascii "06", ascii "Nov",
      ascii "1994", ascii "08:49:37", [], by decide +kernel, by decide +kernel, by decide +kernel, time,
      nofun, rfl⟩
  have rfc850 : Rfc850Text (ascii "Sunday, 06-Nov-94 08:49:37 GMT") (1994 % 100) 11 6 31777 :=
    ⟨ascii "Sunday", ascii "06-Nov-94 08:49:37 GMT", by decide +kernel, rfl, ascii "06", ascii "Nov",
      ascii "94", ascii "08:49:37", [], by decide +kernel, by decide +kernel, by decide +kernel, time,
      nofun, rfl⟩
  obtain ⟨full, -, -⟩ := http_date_conversion 0 (ascii "Sun, 06 Nov 1994 08:49:37 GMT") 1994 11 6 31777
  obtain ⟨-, short, search⟩ :=
    http_date_conversion clockFloor (ascii "Sunday, 06-Nov-94 08:49:37 GMT") 1994 11 6 31777
  rw [← value]
  refine ⟨full (.inl imf), short (Int.le_refl _) (by decide) window rfc850, ?_⟩
  exact (search 94 (Int.le_refl _) (by decide) ⟨range, by decide, by decide⟩).mpr
    ⟨1994, rfl, by decide, window.2⟩

/-- A clock so late that the year of the window is no `int`: the loop adds beyond the largest one. -/
theorem century_overflows :
    clockFloor ≤ 10 ^ 18 ∧ ¬CenturyLaw (10 ^ 18) 94 11 6 31777 ∧
      httpDateReturn (ascii "Sunday, 06-Nov-94 08:49:37 GMT") (10 ^ 18) = none := by
  have range : 1 ≤ 11 ∧ 11 ≤ 12 := by decide
  have set : clockFloor ≤ 10 ^ 18 := by decide
  have broken : ¬CenturyFits (10 ^ 18) 94 11 6 31777 := by
    rintro ⟨year, -, fits, ends⟩
    unfold intMax at fits
    have order := unixSeconds_add (year + 50) (2147483647 - (year + 50)) range 6 31777
    rw [show year + 50 + (2147483647 - (year + 50)) = 2147483647 by omega] at order
    have last : unixSeconds 2147483647 11 6 31777 = dateToUnixTime 2147483647 11 6 31777 :=
      (dateToUnixTime_eq range 6 31777).symm
    have small : dateToUnixTime 2147483647 11 6 31777 ≤ 10 ^ 17 := by decide
    omega
  have taken : takeHttpDate (ascii "Sunday, 06-Nov-94 08:49:37 GMT") =
      some ⟨(6 : Nat), (11 : Nat), (94 : Nat), (31777 : Nat), true⟩ := by decide +kernel
  refine ⟨set, fun law => broken ((centuryLaw_iff range set (by decide) (by decide) (by decide)).mp law), ?_⟩
  rcases httpDateReturn_short set (by decide) taken with ⟨fits, -⟩ | ⟨-, undefined⟩
  · exact absurd fits broken
  · exact undefined

end WolfCert.Http
