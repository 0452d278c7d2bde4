import WolfCert.Server.Segments

/-!
# Request heads of a client

A head of plain lines, as the client formats it, is read whole.
-/

namespace WolfCert.Server

open WolfCert.CLib WolfCert.Http

variable {c c' : Conn}

/-- Lines, each ended by CRLF. -/
def joinLines (lines : List Bytes) : Bytes := lines.flatMap (· ++ [13, 10])

/-- A line that is read whole: it has a byte, and none that ends a line or a text. -/
structure PlainLine (line : Bytes) : Prop where
  filled : line ≠ []
  chars : ∀ b ∈ line, b ≠ 0 ∧ b ≠ 10

theorem PlainLine.not_mem {line : Bytes} (plain : PlainLine line) : 0 ∉ line ∧ 10 ∉ line :=
  ⟨fun inside => (plain.chars _ inside).1 rfl, fun inside => (plain.chars _ inside).2 rfl⟩

theorem PlainLine.append {front text : Bytes} (plain : PlainLine front)
    (chars : ∀ b ∈ text, b ≠ 0 ∧ b ≠ 10) : PlainLine (front ++ text) :=
  ⟨fun empty => plain.filled (List.append_eq_nil_iff.mp empty).1, fun b inside =>
    (List.mem_append.mp inside).elim (plain.chars b) (chars b)⟩

theorem readLine_plain {line : Bytes} (plain : PlainLine line) (rest : Bytes) :
    readLine (line ++ 13 :: 10 :: rest) = some (line, rest) := by
  refine readLine_eq_some.mpr ⟨line ++ [13], ?_, by simp, by simp [stripCr]⟩
  simp [plain.not_mem.2]

/-! ## The blank line -/

/-- A text without LF holds no part of a blank line but a last CR. -/
theorem strstr_over {line : Bytes} (unbroken : 10 ∉ line) (rest : Bytes) :
    strstr crlfCrlf (line ++ 13 :: rest) =
      (strstr crlfCrlf (13 :: rest)).map fun found => (line ++ found.1, found.2) := by
  induction line with
  | nil => simp
  | cons b line ih =>
      rw [List.mem_cons, not_or] at unbroken
      have elsewhere : ¬crlfCrlf.isPrefixOf (b :: (line ++ 13 :: rest)) = true := by
        cases line with
        | nil => simp [crlfCrlf]
        | cons c line =>
            have other : c ≠ 10 := fun same => unbroken.2 (by simp [same])
            simp [crlfCrlf, Ne.symm other]
      rw [List.cons_append, strstr, if_neg elsewhere, ih unbroken.2, Option.map_map]
      rfl

theorem strstr_joinLines {lines : List Bytes} (plain : ∀ line ∈ lines, PlainLine line)
    (some : lines ≠ []) (later : Bytes) :
    ∃ block, joinLines lines = block ++ [13, 10] ∧
      strstr crlfCrlf (joinLines lines ++ 13 :: 10 :: later) = .some (block, later) := by
  induction lines with
  | nil => exact absurd rfl some
  | cons line lines ih =>
      have beyond := strstr_over (plain line (by simp)).not_mem.2
      cases lines with
      | nil =>
          refine ⟨line, by simp [joinLines], ?_⟩
          have here : strstr crlfCrlf (13 :: 10 :: 13 :: 10 :: later) = .some ([], later) := by
            simp [strstr, crlfCrlf]
          simp [joinLines, beyond, here]
      | cons next lines =>
          obtain ⟨block, ends, found⟩ := ih (fun l inside => plain l (List.mem_cons_of_mem _ inside))
            (List.cons_ne_nil _ _)
          refine ⟨line ++ 13 :: 10 :: block, by simp [joinLines] at ends ⊢; simp [ends], ?_⟩
          obtain ⟨filled, chars⟩ := plain next (by simp)
          obtain ⟨b, text, rfl⟩ := List.exists_cons_of_ne_nil filled
          -- The next line has a byte before its LF, so no blank line begins at this line's end.
          have apart (after : Bytes) : strstr crlfCrlf (13 :: 10 :: (b :: text ++ 13 :: after)) =
              (strstr crlfCrlf (b :: text ++ 13 :: after)).map
                fun found => (13 :: 10 :: found.1, found.2) := by
            have elsewhere : ¬crlfCrlf.isPrefixOf (13 :: 10 :: (b :: text ++ 13 :: after)) = true := by
              cases text with
              | nil => simp [crlfCrlf]
              | cons c text =>
                  have other : c ≠ 10 := (chars c (by simp)).2
                  simp [crlfCrlf, Ne.symm other]
            rw [strstr, if_neg elsewhere, strstr, if_neg (by simp [crlfCrlf]), Option.map_map]
            rfl
          simp only [joinLines, List.flatMap_cons, List.append_assoc, List.cons_append,
            List.nil_append] at found apart ⊢
          rw [beyond, apart, found]
          rfl

theorem joinLines_not_mem {lines : List Bytes} (plain : ∀ line ∈ lines, PlainLine line) :
    0 ∉ joinLines lines := by
  intro inside
  obtain ⟨line, member, inside⟩ := List.mem_flatMap.mp inside
  rcases List.mem_append.mp inside with nul | ending
  · exact (plain line member).not_mem.1 nul
  · revert ending
    decide

/-- A head that fits the buffer is received whole. -/
theorem receiveHead_plain {cap : Nat} {lines : List Bytes} {later : Bytes}
    (plain : ∀ line ∈ lines, PlainLine line) (some : lines ≠ [])
    (fits : (joinLines lines).length + 2 ≤ cap) (stream : c.rest = joinLines lines ++ 13 :: 10 :: later) :
    ∃ more c', receiveHead cap cap [] c = .some (.ok (joinLines lines ++ 13 :: 10 :: more), c') ∧
      more ++ c'.rest = later ∧ c'.memory = c.memory := by
  obtain ⟨block, shape, blank⟩ := strstr_joinLines plain some later
  have initial : strstr crlfCrlf (cString []) = none := rfl
  rcases receiveHead_cases (c := c) (Nat.zero_le cap) (Nat.sub_le _ _) initial with ⟨buf, c', run⟩ | ended
  · obtain ⟨more, whole, rest⟩ := receiveHead_blank run (stream ▸ blank)
      (by rw [shape, List.length_append] at fits; simpa using fits)
    refine ⟨more, c', ?_, rest, receiveHead_memory _ _ _ _ _ _ run⟩
    rw [run, whole, shape]
    simp [crlfCrlf]
  · obtain ⟨absent, -⟩ := ended
    have text : cString (joinLines lines ++ 13 :: 10 :: later) =
        joinLines lines ++ 13 :: 10 :: cString later := by
      rw [cString_append_of_not_mem (joinLines_not_mem plain)]
      rfl
    obtain ⟨_, _, found⟩ := strstr_joinLines plain some (cString later)
    rw [List.nil_append, stream, text, found] at absent
    cases absent

/-! ## The request -/

/-- Header lines that bring one state to another, whatever is behind each of them. -/
inductive LineRun (authorizes : Bool) : HeadState → List Bytes → HeadState → Prop where
  | nil (st : HeadState) : LineRun authorizes st [] st
  | cons {st st₁ st' : HeadState} {line : Bytes} {lines : List Bytes} (plain : PlainLine line)
      (stepped : ∀ (c : Conn) rest, c.memory = [] →
        headerLine authorizes st line (13 :: 10 :: rest) c = some (.ok st₁, c))
      (later : LineRun authorizes st₁ lines st') : LineRun authorizes st (line :: lines) st'

section

variable {authorizes : Bool} {st st₁ st' : HeadState} {lines : List Bytes}

theorem LineRun.plain (run : LineRun authorizes st lines st') : ∀ line ∈ lines, PlainLine line := by
  induction run with
  | nil => nofun
  | cons plain _ _ ih => exact List.forall_mem_cons.mpr ⟨plain, ih⟩

theorem LineRun.append {others : List Bytes} (run : LineRun authorizes st lines st₁)
    (run' : LineRun authorizes st₁ others st') : LineRun authorizes st (lines ++ others) st' := by
  induction run with
  | nil => exact run'
  | cons plain stepped _ ih => exact .cons plain stepped (ih run')

/-- The loop examines those lines and ends behind the blank line. -/
theorem LineRun.loop (run : LineRun authorizes st lines st') (free : c.memory = []) (more : Bytes)
    {fuel : Nat} (enough : lines.length < fuel) :
    headerLoop (headerLine authorizes) fuel (joinLines lines ++ 13 :: 10 :: more) st c =
      some (.ok (st', lines, more), c) := by
  induction run generalizing fuel with
  | nil =>
      obtain ⟨fuel, rfl⟩ := Nat.exists_eq_add_of_lt enough
      have blank : readLine (joinLines [] ++ 13 :: 10 :: more) = some ([], more) := readLine_crlf more
      simp only [headerLoop, blank, if_true, Prog.pure_apply]
  | @cons _ st₁ _ line lines plain stepped _ ih =>
      obtain ⟨fuel, rfl⟩ : ∃ k, fuel = k + 1 := ⟨fuel - 1, by omega⟩
      have text : joinLines (line :: lines) ++ 13 :: 10 :: more =
          line ++ 13 :: 10 :: (joinLines lines ++ 13 :: 10 :: more) := by
        simp [joinLines]
      simp only [text, headerLoop, readLine_plain plain, if_neg plain.filled, List.drop_left,
        Prog.bind_ok_iff]
      exact ⟨st₁, c, stepped c _ free, (_, _, _), c, ih (by simpa using enough), rfl⟩

theorem length_le_joinLines (lines : List Bytes) : lines.length ≤ (joinLines lines).length := by
  induction lines with
  | nil => exact Nat.le_refl _
  | cons line lines ih =>
      simp only [joinLines, List.flatMap_cons, List.length_append, List.length_cons] at ih ⊢
      omega

/-- A head of plain lines is read as what its lines say. -/
theorem readRequestIn_plain {cap : Nat} (admits : RequestLine → Bool) {line : Bytes} {later body : Bytes}
    {request : RequestLine} {size : Nat} (plain : PlainLine line)
    (run : LineRun authorizes ⟨framingInit request.version, none⟩ lines st)
    (fits : (joinLines (line :: lines)).length + 2 ≤ cap)
    (stream : c.rest = joinLines (line :: lines) ++ 13 :: 10 :: later) (free : c.memory = [])
    (parsed : parseRequestLine line = some request) (admitted : admits request = true)
    (bodied : ∀ (d : Conn) held, held ++ d.rest = later → d.memory = [] →
      ∃ d', readBody st.framing held d = some (.ok (body, size), d')) :
    ∃ trace c', readRequestIn cap admits authorizes c = some (.ok (⟨request.method, request.target,
        st.authHeader, framingClose st.framing, body⟩, trace), c') ∧
      trace.lines = lines ∧ trace.bodyStart = (joinLines (line :: lines)).length + 2 ∧
      trace.bodySize = size := by
  obtain ⟨more, c₁, received, unread, memory⟩ := receiveHead_plain
    (List.forall_mem_cons.mpr ⟨plain, run.plain⟩) (List.cons_ne_nil _ _) fits stream
  have shape : joinLines (line :: lines) ++ 13 :: 10 :: more =
      line ++ 13 :: 10 :: (joinLines lines ++ 13 :: 10 :: more) := by
    simp [joinLines]
  have read := readLine_plain plain (joinLines lines ++ 13 :: 10 :: more)
  rw [← shape] at read
  have enough : lines.length < (joinLines lines ++ 13 :: 10 :: more).length + 1 := by
    have short := length_le_joinLines lines
    rw [List.length_append]
    omega
  have headers := run.loop (memory.trans free) more enough
  obtain ⟨c', body'⟩ := bodied c₁ more unread (memory.trans free)
  refine ⟨⟨joinLines (line :: lines) ++ 13 :: 10 :: more, lines,
    (joinLines (line :: lines) ++ 13 :: 10 :: more).length - more.length, st.framing, size⟩, c',
    Prog.bind_ok_iff.mpr ⟨_, c₁, received, ?_⟩, rfl, ?_, rfl⟩
  · simp only [read, parsed]
    exact Prog.bind_ok_iff.mpr ⟨(), c₁, Prog.require_ok_iff.mpr ⟨admitted, rfl⟩,
      Prog.bind_ok_iff.mpr ⟨(_, _, _), c₁, headers, Prog.bind_ok_iff.mpr ⟨(_, _), c', body', rfl⟩⟩⟩
  · simp only [List.length_append, List.length_cons]
    omega

end

end WolfCert.Server
