import WolfCert.Http.HttpDate

/-!
# The delay of a Retry-After

What `parse_retry_after` makes of a value: a number of seconds, or the time up to an HTTP-date.
-/

namespace WolfCert.Http

open WolfCert.CLib WolfCert.CLib.Calendar

def clampDelay (delay : Int) : Int :=
  if delay ≤ 0 then 0 else if delay > maxRetryAfter then maxRetryAfter else delay

/-- What `parse_retry_after` returns, if its arithmetic is defined. -/
def retryAfterReturn (v : Bytes) (now : Int) : Option Int :=
  if isDigit (charAt v) then
    let (delay, rest) := delaySeconds v 0
    some (clampDelay (if onlyOws rest then delay else 0))
  else if now ≥ clockFloor then
    (httpDateReturn v now).map fun time => clampDelay (if time ≥ 0 then time - now else 0)
  else some (clampDelay 0)

/-- Where it is defined, it is the value that a response carries. -/
theorem retryAfterReturn_eq {v : Bytes} {now delay : Int} (returned : retryAfterReturn v now = some delay) :
    parseRetryAfter v now = delay := by
  unfold retryAfterReturn at returned
  split at returned
  · rename_i number
    rw [← Option.some.inj returned, parseRetryAfter, if_pos number]
    rfl
  · rename_i word
    rw [parseRetryAfter, if_neg word]
    split at returned
    · rename_i set
      obtain ⟨time, converted, rfl⟩ := Option.map_eq_some_iff.mp returned
      rw [if_pos set, ← httpDateReturn_eq converted]
      cases httpDateToUnixTime v now with
      | none => rfl
      | some time => rfl
    · rename_i unset
      rw [if_neg unset]
      exact Option.some.inj returned

/-! ## Numbers -/

/-- A number of any length, or so far that only its size matters. -/
def Counted (delay : Int) (value : Nat) : Prop :=
  delay = value ∨ maxRetryAfter < delay ∧ maxRetryAfter < value

theorem delaySeconds_counted {digits : Bytes} (all : ∀ c ∈ digits, isDigit c = true) {rest : Bytes}
    (stops : isDigit (charAt rest) = false) {delay : Int} {value : Nat} (counted : Counted delay value) :
    ∃ delay', delaySeconds (digits ++ rest) delay = (delay', rest) ∧
      Counted delay' (digits.foldl (fun value c => value * 10 + (c.toNat - 48)) value) := by
  induction digits generalizing delay value with
  | nil =>
      refine ⟨delay, ?_, counted⟩
      cases rest with
      | nil => rfl
      | cons c rest =>
          have other : ¬isDigit c = true := by simpa [charAt] using stops
          rw [List.nil_append, delaySeconds, if_neg other]
  | cons c digits ih =>
      have digit := all c List.mem_cons_self
      rw [List.cons_append, delaySeconds, if_pos digit]
      refine ih (fun d inside => all d (List.mem_cons_of_mem _ inside)) ?_
      dsimp only
      rcases counted with rfl | ⟨large, large'⟩
      · split
        · exact .inl (by push_cast; rfl)
        · exact .inr (by omega)
      · exact .inr (by rw [if_neg (by omega)]; omega)

theorem Counted.clamp {delay : Int} {value : Nat} (counted : Counted delay value) :
    clampDelay delay = min (value : Int) maxRetryAfter := by
  have limit : maxRetryAfter = 86400 := rfl
  unfold clampDelay
  rcases counted with rfl | ⟨large, large'⟩
  · split <;> omega
  · rw [if_neg (by omega), if_pos large]
    omega

/-- A value that is a number, with blanks behind it. -/
def NumberText (v : Bytes) (n : Nat) : Prop :=
  ∃ digits blanks, digits ≠ [] ∧ (∀ c ∈ digits, isDigit c = true) ∧ Blanks blanks ∧ v = digits ++ blanks ∧
    digitsValue digits = n

theorem blanks_stop {blanks : Bytes} (only : Blanks blanks) : isDigit (charAt blanks) = false := by
  cases blanks with
  | nil => rfl
  | cons c blanks =>
      rcases only c List.mem_cons_self with rfl | rfl
      · rfl
      · rfl

theorem retryAfterReturn_number {v : Bytes} {n : Nat} (number : NumberText v n) (now : Int) :
    isDigit (charAt v) = true ∧ retryAfterReturn v now = some (min (n : Int) maxRetryAfter) := by
  obtain ⟨digits, blanks, filled, all, only, rfl, rfl⟩ := number
  have first : isDigit (charAt (digits ++ blanks)) = true := by
    obtain ⟨c, later, rfl⟩ := List.exists_cons_of_ne_nil filled
    exact all c List.mem_cons_self
  obtain ⟨delay, read, counted⟩ := delaySeconds_counted all (blanks_stop only) (.inl rfl : Counted 0 0)
  refine ⟨first, ?_⟩
  rw [retryAfterReturn, if_pos first, read]
  simp only [onlyOws_iff.mpr only, if_true]
  exact congrArg some counted.clamp

theorem retryAfterReturn_other {v : Bytes} (digit : isDigit (charAt v) = true)
    (other : ¬∃ n, NumberText v n) (now : Int) : retryAfterReturn v now = some 0 := by
  have filled : v.takeWhile isDigit ≠ [] := by
    cases v with
    | nil => cases digit
    | cons c v =>
        have first : isDigit c = true := digit
        simp [first]
  have all : ∀ c ∈ v.takeWhile isDigit, isDigit c = true := fun c inside => List.mem_takeWhile_imp inside
  have whole : v = v.takeWhile isDigit ++ v.dropWhile isDigit := List.takeWhile_append_dropWhile.symm
  have stops : isDigit (charAt (v.dropWhile isDigit)) = false := by
    have head := List.head?_dropWhile_not isDigit v
    cases rest : v.dropWhile isDigit with
    | nil => rfl
    | cons c rest =>
        rw [rest] at head
        simpa [charAt] using head
  obtain ⟨delay, read, -⟩ := delaySeconds_counted all stops (.inl rfl : Counted 0 0)
  rw [← whole] at read
  have garbage : ¬onlyOws (v.dropWhile isDigit) = true := fun only =>
    other ⟨_, _, _, filled, all, onlyOws_iff.mp only, whole, rfl⟩
  rw [retryAfterReturn, if_pos digit, read]
  simp only [if_neg garbage]
  rfl

/-! ## Dates -/

/-- The value is an HTTP-date in one of its layouts, and the time it names. -/
def Denotes (now : Int) (v : Bytes) (time : Int) : Prop :=
  ∃ year month day second, IsDate year month day ∧ time = unixSeconds year month day second ∧
    (ImfText v year month day second ∨ AsctimeText v year month day second ∨
      InWindow now year month day second ∧ Rfc850Text v (year % 100) month day second)

/-- What stands behind the month and its blank. -/
theorem SpacedDate.behind {text pad : Bytes} {year month day second count : Nat}
    (date : SpacedDate text year month day second pad count) :
    ∃ d rest, d.length = count ∧ (∀ c ∈ d, isDigit c = true) ∧ text.drop 4 = pad ++ (d ++ 32 :: rest) := by
  obtain ⟨m, d, time, y, blanks, name, ⟨size, digits, -⟩, -, -, -, rfl⟩ := date
  have three : m.length = 3 := months_length m (List.mem_of_getElem? name.2)
  refine ⟨d, time ++ 32 :: (y ++ blanks), size, digits, ?_⟩
  have front : (m ++ [32]).length = 4 := by simp [three]
  rw [← front, ← List.append_cancel_left_eq (m ++ [32])]
  simp

theorem digit_ne_blank {c : UInt8} (digit : isDigit c = true) : c ≠ 32 := by
  rintro rfl
  cases digit

/-- A loose date is in none of the layouts. -/
theorem LooseAsctimeText.not_denotes {v : Bytes} {year month day second : Nat} {now time : Int}
    (loose : LooseAsctimeText v year month day second) : ¬Denotes now v time := by
  obtain ⟨name, rest, named, rfl, loose⟩ := loose
  have behind : (name ++ 32 :: rest).dropWhile isAlpha = 32 :: rest := dropWhile_letters named (by decide)
  have comma {name' rest' : Bytes} (named' : Letters name') (same : name ++ 32 :: rest = name' ++ 44 :: 32 :: rest') :
      False := by
    rw [same, dropWhile_letters named' (by decide)] at behind
    cases behind
  rintro ⟨year', month', day', second', -, -, ⟨_, _, named', same, -⟩ | ⟨name', rest', named', same, strict⟩ |
    ⟨-, _, _, named', same, -⟩⟩
  · exact comma named' same
  · rw [same, dropWhile_letters named' (by decide)] at behind
    obtain rfl : rest' = rest := List.tail_eq_of_cons_eq behind
    have single {d : Bytes} (size : d.length = 1) (all : ∀ c ∈ d, isDigit c = true) :
        ∃ c, d = [c] ∧ c ≠ 32 := by
      obtain ⟨c, rfl⟩ := List.length_eq_one_iff.mp size
      exact ⟨c, rfl, digit_ne_blank (all c List.mem_cons_self)⟩
    have double {d : Bytes} (size : d.length = 2) (all : ∀ c ∈ d, isDigit c = true) :
        ∃ c e, d = [c, e] ∧ c ≠ 32 ∧ e ≠ 32 := by
      obtain ⟨c, e, rfl⟩ := List.length_eq_two.mp size
      exact ⟨c, e, rfl, digit_ne_blank (all c (by simp)), digit_ne_blank (all e (by simp))⟩
    -- The first three bytes tell the four forms apart.
    rcases strict with strict | strict <;> rcases loose with loose | loose <;>
      obtain ⟨d, _, size, all, cut⟩ := strict.behind <;> obtain ⟨d', _, size', all', cut'⟩ := loose.behind <;>
      rw [cut] at cut'
    · obtain ⟨c, e, rfl, -, other⟩ := double size all
      obtain ⟨c', rfl, -⟩ := single size' all'
      exact other (by simpa using (List.cons.inj (List.cons.inj cut').2).1)
    · obtain ⟨c, e, rfl, other, -⟩ := double size all
      exact other (List.cons.inj cut').1
    · obtain ⟨c', rfl, other⟩ := single size' all'
      exact other (List.cons.inj cut').1.symm
    · obtain ⟨c, rfl, -⟩ := single size all
      obtain ⟨c', e, rfl, -, other⟩ := double size' all'
      exact other (List.cons.inj (List.cons.inj (List.cons.inj cut').2).2).1.symm
  · exact comma named' same

/-! ## The value -/

/-- What a Retry-After is to give at a clock. -/
structure RetryLaw (v : Bytes) (now : Int) (result : Option Int) : Prop where
  number : ∀ n, NumberText v n → result = some (min (n : Int) maxRetryAfter)
  other : isDigit (charAt v) = true → (¬∃ n, NumberText v n) → result = some 0
  date : isDigit (charAt v) = false → clockFloor ≤ now → ∀ time, Denotes now v time →
    result = some (max 0 (min (time - now) maxRetryAfter))
  noDate : isDigit (charAt v) = false → clockFloor ≤ now → (¬∃ time, Denotes now v time) → result = some 0
  unset : isDigit (charAt v) = false → now < clockFloor → result = some 0

/-- A value that is read by its layout: its two-digit year is found, and no later time is written loosely. -/
structure StrictDate (v : Bytes) (now : Int) : Prop where
  century : ∀ yy month day second, Rfc850Text v yy month day second → CenturyFits now yy month day second
  layout : ∀ year month day second, LooseAsctimeText v year month day second → IsDate year month day →
    unixSeconds year month day second ≤ now

section

variable {v : Bytes} {now : Int}

theorem retryAfterReturn_date (word : isDigit (charAt v) = false) (set : clockFloor ≤ now) {value : Int}
    (returned : httpDateReturn v now = some value) :
    retryAfterReturn v now = some (max 0 (min (value - now) maxRetryAfter)) := by
  have limits : maxRetryAfter = 86400 ∧ clockFloor = 1767225600 := ⟨rfl, rfl⟩
  have other : ¬isDigit (charAt v) = true := by simp [word]
  rw [retryAfterReturn, if_neg other, if_pos set, returned, Option.map_some]
  unfold clampDelay
  congr 1
  split
  · split
    · omega
    · split <;> omega
  · rw [if_pos (Int.le_refl _)]
    omega

theorem dateValue_pos {year month day second : Nat} (date : IsDate year month day) :
    dateValue year month day second = unixSeconds year month day second := if_pos date

theorem dateValue_neg {year month day second : Nat} (date : ¬IsDate year month day) :
    dateValue year month day second = -1 := if_neg date

theorem httpDateReturn_denotes (strict : StrictDate v now) (set : clockFloor ≤ now) {time : Int}
    (denotes : Denotes now v time) : httpDateReturn v now = some time := by
  obtain ⟨year, month, day, second, date, rfl, imf | asctime | ⟨window, rfc850⟩⟩ := denotes
  · rw [httpDateReturn_full now (takeHttpDate_iff.mpr ⟨year, month, day, second, .inl ⟨.inl imf, rfl⟩⟩),
      dateValue_pos date]
  · rw [httpDateReturn_full now
      (takeHttpDate_iff.mpr ⟨year, month, day, second, .inl ⟨.inr (.inl asctime), rfl⟩⟩), dateValue_pos date]
  · have taken := takeHttpDate_iff.mpr ⟨year % 100, month, day, second, .inr ⟨rfc850, rfl⟩⟩
    rcases httpDateReturn_short set rfc850.two taken with ⟨-, other, ending, window', returned⟩ | ⟨broken, -⟩
    · rw [returned, window'.unique (takeHttpDate_bounds taken).range window ending, dateValue_pos date]
    · exact absurd (strict.century _ _ _ _ rfc850) broken

theorem httpDateReturn_noDate (strict : StrictDate v now) (set : clockFloor ≤ now)
    (none : ¬∃ time, Denotes now v time) : ∃ value, httpDateReturn v now = some value ∧ value ≤ now := by
  have floor : clockFloor = 1767225600 := rfl
  have small {year month day second : Nat}
      (past : IsDate year month day → unixSeconds year month day second ≤ now) :
      dateValue year month day second ≤ now := by
    by_cases date : IsDate year month day
    · rw [dateValue_pos date]
      exact past date
    · rw [dateValue_neg date]
      omega
  cases taken : takeHttpDate v with
  | none => exact ⟨-1, by rw [httpDateReturn, taken], by omega⟩
  | some found =>
      obtain ⟨year, month, day, second, ⟨layout, rfl⟩ | ⟨rfc850, rfl⟩⟩ := takeHttpDate_iff.mp taken
      · refine ⟨_, httpDateReturn_full now taken, small fun date => ?_⟩
        rcases layout with imf | asctime | loose
        · exact absurd ⟨_, year, month, day, second, date, rfl, .inl imf⟩ none
        · exact absurd ⟨_, year, month, day, second, date, rfl, .inr (.inl asctime)⟩ none
        · exact strict.layout year month day second loose date
      · rcases httpDateReturn_short set rfc850.two taken with ⟨-, chosen, rfl, window, returned⟩ | ⟨broken, -⟩
        · exact ⟨_, returned, small fun date =>
            absurd ⟨_, chosen, month, day, second, date, rfl, .inr (.inr ⟨window, rfc850⟩)⟩ none⟩
        · exact absurd (strict.century _ _ _ _ rfc850) broken

/-- The result is defined whatever the value is, and a loose date of a later time is not taken for none. -/
theorem RetryLaw.strict (law : RetryLaw v now (retryAfterReturn v now))
    (word : isDigit (charAt v) = false) (set : clockFloor ≤ now) : StrictDate v now := by
  have floor : clockFloor = 1767225600 := rfl
  have limit : maxRetryAfter = 86400 := rfl
  have other : ¬isDigit (charAt v) = true := by simp [word]
  constructor
  · intro yy month day second rfc850
    by_contra broken
    have taken := takeHttpDate_iff.mpr ⟨yy, month, day, second, .inr ⟨rfc850, rfl⟩⟩
    rcases httpDateReturn_short set rfc850.two taken with ⟨fits, -⟩ | ⟨-, undefined⟩
    · exact broken fits
    · have result : retryAfterReturn v now = none := by
        rw [retryAfterReturn, if_neg other, if_pos set, undefined, Option.map_none]
      by_cases denotes : ∃ time, Denotes now v time
      · obtain ⟨time, denotes⟩ := denotes
        rw [law.date word set time denotes] at result
        cases result
      · rw [law.noDate word set denotes] at result
        cases result
  · intro year month day second loose date
    have returned := httpDateReturn_full now
      (takeHttpDate_iff.mpr ⟨year, month, day, second, .inl ⟨.inr (.inr loose), rfl⟩⟩)
    have result := retryAfterReturn_date word set returned
    rw [law.noDate word set fun ⟨_, denotes⟩ => loose.not_denotes denotes, dateValue_pos date] at result
    have zero := Option.some.inj result
    omega

/-- The value is what it is to be exactly if it is a number, the clock is not set, or a date is read by its
layout. -/
theorem retryLaw_iff (v : Bytes) (now : Int) : RetryLaw v now (retryAfterReturn v now) ↔
    isDigit (charAt v) = true ∨ now < clockFloor ∨ StrictDate v now := by
  have limit : maxRetryAfter = 86400 := rfl
  constructor
  · intro law
    by_cases word : isDigit (charAt v) = true
    · exact .inl word
    · by_cases set : clockFloor ≤ now
      · exact .inr (.inr (law.strict (Bool.eq_false_iff.mpr word) set))
      · exact .inr (.inl (Int.not_le.mp set))
  · intro condition
    have strict (word : isDigit (charAt v) = false) (set : clockFloor ≤ now) : StrictDate v now := by
      rcases condition with digit | early | strict
      · rw [word] at digit
        cases digit
      · omega
      · exact strict
    refine ⟨fun n number => (retryAfterReturn_number number now).2, fun digit other =>
      retryAfterReturn_other digit other now, fun word set time denotes => ?_, fun word set none => ?_,
      fun word early => ?_⟩
    · exact retryAfterReturn_date word set (httpDateReturn_denotes (strict word set) set denotes)
    · obtain ⟨value, returned, past⟩ := httpDateReturn_noDate (strict word set) set none
      rw [retryAfterReturn_date word set returned]
      exact congrArg some (by omega)
    · have other : ¬isDigit (charAt v) = true := by simp [word]
      rw [retryAfterReturn, if_neg other, if_neg (Int.not_le.mpr early)]
      rfl

end

theorem retryLaw_seconds : retryAfterReturn (ascii "120 ") 0 = some 120 ∧
    RetryLaw (ascii "120 ") 0 (retryAfterReturn (ascii "120 ") 0) :=
  ⟨by decide, (retryLaw_iff (ascii "120 ") 0).mpr (.inl rfl)⟩

/-- A single digit for the day with one blank before it is no HTTP-date, yet it is waited for. -/
theorem retry_after_loose_date :
    ¬(∃ time, Denotes clockFloor (ascii "Thu Jan 1 00:02:00 2026") time) ∧
      retryAfterReturn (ascii "Thu Jan 1 00:02:00 2026") clockFloor = some 120 ∧
      ¬RetryLaw (ascii "Thu Jan 1 00:02:00 2026") clockFloor
        (retryAfterReturn (ascii "Thu Jan 1 00:02:00 2026") clockFloor) := by
  have loose : LooseAsctimeText (ascii "Thu Jan 1 00:02:00 2026") 2026 1 1 120 :=
    ⟨ascii "Thu", ascii "Jan 1 00:02:00 2026", by decide +kernel, rfl, .inl ⟨ascii "Jan", ascii "1",
      ascii "00:02:00", ascii "2026", [], by decide +kernel, by decide +kernel,
      ⟨ascii "00", ascii "02", ascii "00", 0, 2, 0, rfl, by decide +kernel, by decide +kernel,
        by decide +kernel, by decide, by decide, by decide, rfl⟩, by decide +kernel, nofun, rfl⟩⟩
  have none : ¬∃ time, Denotes clockFloor (ascii "Thu Jan 1 00:02:00 2026") time :=
    fun ⟨_, denotes⟩ => loose.not_denotes denotes
  have result : retryAfterReturn (ascii "Thu Jan 1 00:02:00 2026") clockFloor = some 120 := by decide +kernel
  refine ⟨none, result, fun law => ?_⟩
  have zero := law.noDate (by decide +kernel) (Int.le_refl _) none
  rw [result] at zero
  cases zero

end WolfCert.Http
