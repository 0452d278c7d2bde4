import WolfCert.Server.Segments

/-!
# Content-Length in requests

The value of a Content-Length field goes to `strtoul`, which takes any text and knows nothing of the end
of the line. What is accepted agrees with RFC 9112 exactly where all the values are one number.
-/

namespace WolfCert.Server

open WolfCert.CLib WolfCert.Http

variable {c c' : Conn}

/-- What follows a line in the buffer. -/
def LineEnd (after : Bytes) : Prop := charAt after = 10 ∨ charAt after = 13

theorem isOws_plain {b : UInt8} (blank : isOws b = true) : isDigit b = false ∧ b ≠ 0 := by
  simp only [isOws, Bool.or_eq_true, beq_iff_eq] at blank
  rcases blank with rfl | rfl
  · decide
  · decide

theorem isDigit_ne_zero {b : UInt8} (digit : isDigit b = true) : b ≠ 0 := by
  rintro rfl
  exact absurd digit (by decide)

/-- Behind the trimmed text there are only blanks. -/
theorem trimmed_append {value digits : Bytes} (trimmed : (value.reverse.dropWhile isOws).reverse = digits) :
    ∃ blanks, value = digits ++ blanks ∧ ∀ b ∈ blanks, isOws b = true := by
  refine ⟨(value.reverse.takeWhile isOws).reverse, ?_, fun b inside => ?_⟩
  · rw [← trimmed, ← List.reverse_append, List.takeWhile_append_dropWhile, List.reverse_reverse]
  · exact List.mem_takeWhile_imp (List.mem_reverse.mp inside)

/-- A field whose trimmed value is a number states it, or the largest `unsigned long`. -/
theorem strtoul_stated {rest digits after : Bytes} {n : Nat} (number : PlainDecimal digits n)
    (trimmed : trimOws rest = digits) (ends : LineEnd after) :
    strtoul (cString (rest.dropWhile isOws ++ after)) = min n ulongMax := by
  obtain ⟨filled, all, rfl⟩ := number
  obtain ⟨blanks, shape, blank⟩ := trimmed_append trimmed
  obtain ⟨e, more, rfl⟩ : ∃ e more, after = e :: more := by
    cases after with
    | nil => rcases ends with bad | bad <;> cases bad
    | cons e more => exact ⟨e, more, rfl⟩
  have plain : e = 10 ∨ e = 13 := ends
  have solid : isDigit e = false ∧ (e != 0) = true := by
    rcases plain with rfl | rfl
    · decide
    · decide
  have clean : 0 ∉ digits ++ blanks := by
    intro inside
    rcases List.mem_append.mp inside with digit | blank'
    · exact isDigit_ne_zero (all 0 digit) rfl
    · exact (isOws_plain (blank 0 blank')).2 rfl
  have text : cString (e :: more) = e :: cString more := by
    simp [cString, solid.2]
  rw [shape, cString_append_of_not_mem clean, text, List.append_assoc]
  refine strtoul_digits filled all fun d first => ?_
  cases blanks with
  | nil =>
      cases first
      exact solid.1
  | cons b blanks =>
      cases first
      exact (isOws_plain (blank _ List.mem_cons_self)).1

def connectionName : Bytes := ascii "Connection"

theorem connectionName_field : FieldName connectionName := by decide +kernel

/-- What a line does that is accepted: it states a length, the chunks, connection options, or nothing
about the framing. -/
theorem headerLine_cases {authorizes : Bool} {st st' : HeadState} {line after : Bytes}
    (run : headerLine authorizes st line after c = some (.ok st', c')) :
    (httpHdrIs line clName = true ∧ st'.framing =
      { st.framing with
        contentLength := strtoul (cString ((line.drop (clName.length + 1)).dropWhile isOws ++ after))
        clSeen := true }) ∨
    (httpHdrIs line clName = false ∧ httpHdrIs line teName = true ∧
      teChunked ((line.drop (teName.length + 1)).dropWhile isOws) = true ∧
      st'.framing = { st.framing with chunked := true }) ∨
    (httpHdrIs line clName = false ∧ httpHdrIs line teName = false ∧
      httpHdrIs line connectionName = true ∧ ∃ fuel,
        ((line.drop (connectionName.length + 1)).dropWhile isOws).length < fuel ∧
        st'.framing =
          connOptions fuel ((line.drop (connectionName.length + 1)).dropWhile isOws) st.framing) ∨
    (httpHdrIs line clName = false ∧ httpHdrIs line teName = false ∧
      httpHdrIs line connectionName = false ∧ st'.framing = st.framing) := by
  cases split : httpHdrSplit line with
  | malformed =>
      simp only [headerLine, split] at run
      cases run
  | value value =>
      -- a field that matches has the value that follows its name
      have shape : ∀ {name}, FieldName name → httpHdrIs line name = true →
          value = (line.drop (name.length + 1)).dropWhile isOws := by
        intro name field here
        have found := httpHdrSplit_field field here
        rwa [split, HdrSplit.value.injEq] at found
      have first : ascii "Content-Length" = clName := rfl
      have second : ascii "Transfer-Encoding" = teName := rfl
      have third : ascii "Connection" = connectionName := rfl
      simp only [headerLine, split, framingHdr, first, second, third] at run
      cases length : httpHdrIs line clName with
      | true =>
          rw [length, if_pos rfl] at run
          cases run
          exact .inl ⟨rfl, by rw [← shape clName_field length]⟩
      | false =>
          rw [length, if_neg (by decide)] at run
          cases coding : httpHdrIs line teName with
          | true =>
              rw [coding, if_pos rfl] at run
              by_cases refused : st.framing.chunked = true ∨ teChunked value = false
              · rw [if_pos refused] at run
                cases run
              · rw [if_neg refused] at run
                cases run
                rw [not_or, Bool.not_eq_false] at refused
                exact .inr (.inl ⟨rfl, rfl, by rw [← shape teName_field coding]; exact refused.2, rfl⟩)
          | false =>
              rw [coding, if_neg (by decide)] at run
              cases options : httpHdrIs line connectionName with
              | true =>
                  rw [options, if_pos rfl] at run
                  cases run
                  rw [← shape connectionName_field options]
                  exact .inr (.inr (.inl ⟨rfl, rfl, rfl, _, Nat.lt_succ_self _, rfl⟩))
              | false =>
                  rw [options, if_neg (by decide)] at run
                  refine .inr (.inr (.inr ⟨rfl, rfl, rfl, ?_⟩))
                  dsimp only at run
                  rw [Prog.ite_apply] at run
                  split at run
                  · simp only [takeAuthorization, Prog.bind_ok_iff, Prog.pure_apply, Option.some.injEq,
                      Prod.mk.injEq, Except.ok.injEq] at run
                    obtain ⟨_, _, -, granted, _, -, rfl, -⟩ := run
                    cases granted <;> rfl
                  · cases run
                    rfl

/-- One turn of the loop over the header lines. -/
theorem headerLoop_cons {step : HeaderStep} {fuel : Nat} {p rest : Bytes} {st st' : HeadState}
    {line : Bytes} {lines : List Bytes}
    (run : headerLoop step (fuel + 1) p st c = some (.ok (st', line :: lines, rest), c')) :
    ∃ next st₁ c₁, readLine p = some (line, next) ∧
      step st line (p.drop line.length) c = some (.ok st₁, c₁) ∧
      headerLoop step fuel next st₁ c₁ = some (.ok (st', lines, rest), c') := by
  cases read : readLine p with
  | none =>
      simp only [headerLoop, read] at run
      cases run
  | some found =>
      obtain ⟨first, next⟩ := found
      simp only [headerLoop, read, Prog.ite_apply] at run
      split at run
      · cases run
      · simp only [Prog.bind_ok_iff] at run
        obtain ⟨st₁, c₁, stepped, ⟨st₂, later, unread⟩, c₂, ran, ended⟩ := run
        cases ended
        exact ⟨next, st₁, c₁, rfl, stepped, ran⟩

theorem headerLoop_nil {step : HeaderStep} {fuel : Nat} {p rest : Bytes} {st st' : HeadState}
    (run : headerLoop step fuel p st c = some (.ok (st', [], rest), c')) : st' = st := by
  cases fuel with
  | zero =>
      cases run
      rfl
  | succ fuel =>
      cases read : readLine p with
      | none =>
          simp only [headerLoop, read] at run
          cases run
          rfl
      | some found =>
          obtain ⟨line, next⟩ := found
          simp only [headerLoop, read, Prog.ite_apply] at run
          split at run
          · cases run
            rfl
          · simp only [Prog.bind_ok_iff] at run
            obtain ⟨_, _, -, ⟨_, _, _⟩, _, -, ended⟩ := run
            cases ended

end WolfCert.Server
