import WolfCert.Http.ChunkedGrammar

/-!
# Scanning messages

The scanner completes exactly on the messages within its cap, and agrees with the decoder on where they
end and how much they hold.
-/

namespace WolfCert.Http

open WolfCert.CLib

/-! ## The scan of a message -/

/-- The scan is at the start of a line. -/
structure ChunkScan.AtLine (st : ChunkScan) (start : Nat) : Prop where
  pos : st.pos = start
  chunk : st.chunk = 0
  crlf : st.crlf ≤ start

theorem ChunkScan.AtLine.lineStart_eq {st : ChunkScan} {pos : Nat} (start : st.AtLine pos) :
    lineStart st = pos := by
  rw [lineStart, start.pos, Nat.max_eq_left start.crlf]

theorem ChunkScan.AtLine.sound {st : ChunkScan} {front : Bytes} (start : st.AtLine front.length)
    (text : Bytes) : st.Sound (front ++ text) where
  bound := by
    have crlf := start.crlf
    rw [List.length_append]
    omega
  payload full := absurd start.chunk (by omega)
  line _ more := by rw [start.lineStart_eq, start.pos]

theorem ChunkScan.AtLine.turn {st : ChunkScan} {front : Bytes} (start : st.AtLine front.length)
    (text : Bytes) :
    chunkedTurn (front ++ text) st =
      if (findCrlf (front ++ text) front.length).found = false then
        (some .more, { st with crlf := (findCrlf (front ++ text) front.length).index })
      else lineTurn (front ++ text) st (findCrlf (front ++ text) front.length).index := by
  rw [chunkedTurn_line start.chunk, start.lineStart_eq]

/-- A whole line is dealt with in one turn. -/
theorem ChunkScan.AtLine.scan_line {st : ChunkScan} {front line : Bytes} (start : st.AtLine front.length)
    (plain : NoCrlf line) (rest : Bytes) :
    httpChunkedComplete (front ++ (line ++ 13 :: 10 :: rest)) st =
      match lineTurn (front ++ (line ++ 13 :: 10 :: rest)) st (front.length + line.length) with
      | (some verdict, st') => (verdict, st')
      | (none, st') => httpChunkedComplete (front ++ (line ++ 13 :: 10 :: rest)) st' := by
  have unread : st.pos < (front ++ (line ++ 13 :: 10 :: rest)).length := by
    rw [start.pos, List.length_append, List.length_append, List.length_cons]
    omega
  have turned := start.turn (line ++ 13 :: 10 :: rest)
  rw [findCrlf_line _ _ _ plain, if_neg (by simp)] at turned
  have scanned := httpChunkedComplete_eq (start.sound (line ++ 13 :: 10 :: rest))
  rw [if_pos unread, turned] at scanned
  exact scanned

/-- A scan that does not ask for more has a line before it. -/
theorem ChunkScan.AtLine.line_of_decided {st st' : ChunkScan} {front text : Bytes} {verdict : Framing}
    (start : st.AtLine front.length) (run : httpChunkedComplete (front ++ text) st = (verdict, st'))
    (decided : verdict ≠ .more) : ∃ line rest, text = line ++ 13 :: 10 :: rest ∧ NoCrlf line := by
  rw [httpChunkedComplete_eq (start.sound _), start.turn] at run
  split at run
  · apply findCrlf_split front
    by_contra missing
    rw [if_pos (by simpa using missing)] at run
    exact decided (congrArg Prod.fst run).symm
  · exact absurd (congrArg Prod.fst run).symm decided

section Chunks

variable {c : Chunk} {st : ChunkScan} {front : Bytes}

/-- The state after a chunk. -/
def ChunkScan.afterChunk (st : ChunkScan) (c : Chunk) : ChunkScan :=
  { st with
    pos := st.pos + c.render.length
    crlf := st.pos + c.size.length
    total := st.total + c.payload.length }

theorem ChunkScan.AtLine.afterChunk (start : st.AtLine front.length) (c : Chunk) :
    (st.afterChunk c).AtLine (front ++ c.render).length where
  pos := by rw [ChunkScan.afterChunk, start.pos, List.length_append]
  chunk := start.chunk
  crlf := by
    simp only [ChunkScan.afterChunk, start.pos, List.length_append, c.render_length]
    omega

theorem lineTurn_size (valid : c.Valid) (start : st.AtLine front.length) (open_ : st.inTrailers = false)
    (rest : Bytes) :
    lineTurn (front ++ (c.render ++ rest)) st (front.length + c.size.length) =
      let sized := { st with crlf := front.length + c.size.length, chunk := c.payload.length }
      if overCap st c.payload.length then (some .malformed, sized)
      else (none, { sized with
        total := st.total + c.payload.length, pos := front.length + c.size.length + 2 }) := by
  have filled : c.payload.length ≠ 0 := by simpa using valid.filled
  simp only [lineTurn, open_, Bool.false_eq_true, if_false, start.pos, Chunk.parse_size valid, if_neg filled]
  rfl

/-- A chunk within the cap moves the scan to the line after it. -/
theorem ChunkScan.AtLine.scan_chunk (start : st.AtLine front.length) (valid : c.Valid)
    (open_ : st.inTrailers = false) (fits : overCap st c.payload.length = false) (rest : Bytes) :
    httpChunkedComplete (front ++ (c.render ++ rest)) st =
      httpChunkedComplete (front ++ (c.render ++ rest)) (st.afterChunk c) := by
  have text : c.render ++ rest = c.size ++ 13 :: 10 :: (c.payload ++ 13 :: 10 :: rest) := by
    simp [Chunk.render]
  have turned := lineTurn_size valid start open_ rest
  have scanned := start.scan_line valid.line (c.payload ++ 13 :: 10 :: rest)
  rw [← text, turned] at scanned
  simp only [fits, Bool.false_eq_true, if_false] at scanned
  rw [scanned]
  -- the payload is skipped in a second turn
  have filled : c.payload.length > 0 := List.length_pos_iff.mpr valid.filled
  obtain ⟨carriage, feed⟩ := c.payload_end front rest
  have arrived : ¬(front ++ (c.render ++ rest)).length <
      front.length + c.size.length + 2 + c.payload.length + 2 := by
    rw [List.length_append, List.length_append, c.render_length]
    omega
  have unread : front.length + c.size.length + 2 < (front ++ (c.render ++ rest)).length := by omega
  have sound : ({ st with
      crlf := front.length + c.size.length, chunk := c.payload.length
      total := st.total + c.payload.length, pos := front.length + c.size.length + 2 } :
      ChunkScan).Sound (front ++ (c.render ++ rest)) :=
    ⟨by dsimp only; omega, fun _ => by dsimp only; omega, fun none => absurd none (by dsimp only; omega)⟩
  rw [httpChunkedComplete_eq sound, if_pos unread, chunkedTurn_payload filled]
  dsimp only
  rw [if_neg arrived, carriage, feed, if_neg (by simp)]
  simp only [ChunkScan.afterChunk, start.pos, start.chunk, c.render_length, Nat.add_assoc]

/-- A size line past the cap ends the scan. -/
theorem ChunkScan.AtLine.scan_over {line : Bytes} {clen : Nat} (start : st.AtLine front.length)
    (plain : NoCrlf line) (size : chunkSize line = some clen) (open_ : st.inTrailers = false)
    (beyond : overCap st clen = true) (rest : Bytes) :
    (httpChunkedComplete (front ++ (line ++ 13 :: 10 :: rest)) st).1 = .malformed := by
  have past : overCap { st with
      pos := front.length, crlf := front.length + line.length, chunk := clen, inTrailers := false }
      clen = true := beyond
  rw [start.scan_line plain]
  simp only [lineTurn, open_, Bool.false_eq_true, if_false, start.pos, parseChunkSize_line, size, past,
    if_true]

end Chunks

theorem ChunkScan.AtLine.next {st next : ChunkScan} {front line : Bytes} (start : st.AtLine front.length)
    (pos : next.pos = front.length + line.length + 2) (crlf : next.crlf = front.length + line.length)
    (chunk : next.chunk = st.chunk) : next.AtLine (front ++ (line ++ [13, 10])).length := by
  refine ⟨?_, by rw [chunk, start.chunk], ?_⟩
  · rw [pos, List.length_append, List.length_append]
    rfl
  · rw [crlf, List.length_append, List.length_append]
    omega

/-- The trailer section is scanned to its blank line. -/
theorem ChunkScan.AtLine.scan_trailers {st : ChunkScan} {front : Bytes} {trailers : List Bytes}
    (start : st.AtLine front.length) (inside : st.inTrailers = true)
    (lines : ∀ line ∈ trailers, NoCrlf line ∧ line ≠ []) (rest : Bytes) :
    ∃ st', httpChunkedComplete (front ++ (renderTrailers trailers ++ rest)) st = (.complete, st') ∧
      st'.pos = (front ++ renderTrailers trailers).length ∧ st'.total = st.total := by
  induction trailers generalizing st front with
  | nil =>
      have nothing : NoCrlf [] := by simp [NoCrlf]
      have scanned := start.scan_line nothing rest
      have turned : lineTurn (front ++ ([] ++ 13 :: 10 :: rest)) st (front.length + ([] : Bytes).length) =
          (some .complete, { st with crlf := front.length, pos := front.length + 2 }) := by
        simp [lineTurn, inside, start.pos]
      rw [turned] at scanned
      exact ⟨_, scanned, by simp [renderTrailers], rfl⟩
  | cons line trailers ih =>
      obtain ⟨plain, filled⟩ := lines line List.mem_cons_self
      have regroup : front ++ (line ++ 13 :: 10 :: (renderTrailers trailers ++ rest)) =
          front ++ (line ++ [13, 10]) ++ (renderTrailers trailers ++ rest) := by
        simp
      have count : front.length + line.length ≠ front.length := by
        have size : line.length ≠ 0 := by simpa using filled
        omega
      have turned : lineTurn (front ++ (line ++ 13 :: 10 :: (renderTrailers trailers ++ rest))) st
          (front.length + line.length) =
          (none, { st with
            crlf := front.length + line.length, pos := front.length + line.length + 2 }) := by
        simp only [lineTurn, inside, if_true, start.pos, if_neg count]
      have next : ({ st with
          crlf := front.length + line.length, pos := front.length + line.length + 2 } :
          ChunkScan).AtLine (front ++ (line ++ [13, 10])).length := start.next rfl rfl rfl
      obtain ⟨st', done, pos, total⟩ := ih next inside
        fun line member => lines line (List.mem_cons_of_mem _ member)
      refine ⟨st', ?_, ?_, total⟩
      · rw [renderTrailers_cons, start.scan_line plain, turned]
        dsimp only
        rw [regroup, done]
      · rw [pos]
        simp [renderTrailers]

/-- The line of the last chunk leads to the trailer section. -/
theorem ChunkScan.AtLine.scan_last {st : ChunkScan} {front last : Bytes} (start : st.AtLine front.length)
    (open_ : st.inTrailers = false) (plain : NoCrlf last) (size : chunkSize last = some 0)
    (rest : Bytes) :
    ∃ next : ChunkScan, next.AtLine (front ++ (last ++ [13, 10])).length ∧ next.inTrailers = true ∧
      next.total = st.total ∧
      httpChunkedComplete (front ++ (last ++ 13 :: 10 :: rest)) st =
        httpChunkedComplete (front ++ (last ++ 13 :: 10 :: rest)) next := by
  have cap : ∀ st : ChunkScan, overCap st 0 = false := fun st => by simp [overCap]
  have turned : lineTurn (front ++ (last ++ 13 :: 10 :: rest)) st (front.length + last.length) =
      (none, { st with
        crlf := front.length + last.length, chunk := 0, inTrailers := true
        pos := front.length + last.length + 2 }) := by
    simp only [lineTurn, open_, Bool.false_eq_true, if_false, start.pos, parseChunkSize_line, size, cap,
      if_true]
  exact ⟨{ st with
      crlf := front.length + last.length, chunk := 0, inTrailers := true
      pos := front.length + last.length + 2 },
    start.next rfl rfl start.chunk.symm, rfl, rfl, by rw [start.scan_line plain, turned]⟩

/-- Whether `bytes` more payload bytes stay within the cap. -/
def ChunkScan.Admits (st : ChunkScan) (bytes : Nat) : Prop := st.max ≠ 0 → st.total + bytes ≤ st.max

theorem overCap_eq_false {st : ChunkScan} {bytes : Nat} (admits : st.Admits bytes) :
    overCap st bytes = false := by
  simp only [overCap, decide_eq_false_iff_not, not_and, Nat.not_lt]
  intro capped
  have fits := admits capped
  omega

theorem overCap_eq_true {st : ChunkScan} {bytes : Nat} (capped : st.Capped) (refused : ¬st.Admits bytes) :
    overCap st bytes = true := by
  simp only [ChunkScan.Admits, Classical.not_imp, Nat.not_le] at refused
  simp only [overCap, decide_eq_true_eq]
  have below := capped refused.1
  exact ⟨refused.1, by omega⟩

/-- The scan of a message within the cap completes at its end. -/
theorem ChunkScan.AtLine.scan_render {m : ChunkedMessage} (valid : m.Valid) {st : ChunkScan} {front : Bytes}
    (start : st.AtLine front.length) (open_ : st.inTrailers = false) (admits : st.Admits m.body.length)
    (rest : Bytes) :
    ∃ st', httpChunkedComplete (front ++ (m.render ++ rest)) st = (.complete, st') ∧
      st'.pos = (front ++ m.render).length ∧ st'.total = st.total + m.body.length := by
  obtain ⟨chunks, last, trailers⟩ := m
  obtain ⟨validChunks, lastLine, lastSize, lines⟩ := valid
  dsimp only at validChunks lastLine lastSize lines
  induction chunks generalizing front st with
  | nil =>
      obtain ⟨next, nextStart, inside, nextTotal, same⟩ :=
        start.scan_last open_ lastLine lastSize (renderTrailers trailers ++ rest)
      obtain ⟨st', done, pos, total⟩ := nextStart.scan_trailers inside lines rest
      refine ⟨st', ?_, ?_, ?_⟩
      · have text : front ++ ((⟨[], last, trailers⟩ : ChunkedMessage).render ++ rest) =
            front ++ (last ++ 13 :: 10 :: (renderTrailers trailers ++ rest)) := by
          simp [ChunkedMessage.render, renderChunks]
        have regroup : front ++ (last ++ 13 :: 10 :: (renderTrailers trailers ++ rest)) =
            front ++ (last ++ [13, 10]) ++ (renderTrailers trailers ++ rest) := by
          simp
        rw [text, same, regroup, done]
      · rw [pos]
        simp [ChunkedMessage.render, renderChunks]
      · rw [total, nextTotal]
        rfl
  | cons c chunks ih =>
      have size : (⟨c :: chunks, last, trailers⟩ : ChunkedMessage).body.length =
          c.payload.length + (⟨chunks, last, trailers⟩ : ChunkedMessage).body.length := by
        simp [ChunkedMessage.body, chunksBody]
      have fits : st.Admits c.payload.length := fun capped => by
        have whole := admits capped
        omega
      have left : (st.afterChunk c).Admits (⟨chunks, last, trailers⟩ : ChunkedMessage).body.length :=
        fun capped => by
          have whole := admits capped
          simp only [ChunkScan.afterChunk]
          omega
      obtain ⟨st', done, pos, total⟩ := ih (start.afterChunk c) open_ left
        (fun c inside => validChunks c (List.mem_cons_of_mem _ inside))
      refine ⟨st', ?_, ?_, ?_⟩
      · rw [ChunkedMessage.render_cons, start.scan_chunk (validChunks c List.mem_cons_self) open_
          (overCap_eq_false fits), ← List.append_assoc, done]
      · rw [pos]
        simp [ChunkedMessage.render, renderChunks, Nat.add_assoc]
      · rw [total, size]
        simp only [ChunkScan.afterChunk]
        omega

/-- Declared sizes past the cap are refused as soon as the line that goes past it has arrived. -/
theorem ChunkScan.AtLine.scan_declared {chunks : List Chunk} {line : Bytes} {clen : Nat}
    (valid : ∀ c ∈ chunks, c.Valid) (plain : NoCrlf line) (size : chunkSize line = some clen)
    {st : ChunkScan} {front : Bytes} (start : st.AtLine front.length) (open_ : st.inTrailers = false)
    (capped : st.Capped) (beyond : ¬st.Admits ((chunksBody chunks).length + clen)) (rest : Bytes) :
    (httpChunkedComplete (front ++ (renderChunks chunks ++ (line ++ 13 :: 10 :: rest))) st).1 =
      .malformed := by
  induction chunks generalizing front st with
  | nil =>
      have past : overCap st clen = true := overCap_eq_true capped (by simpa [chunksBody] using beyond)
      exact start.scan_over plain size open_ past rest
  | cons c chunks ih =>
      have validChunk := valid c List.mem_cons_self
      have text : renderChunks (c :: chunks) ++ (line ++ 13 :: 10 :: rest) =
          c.render ++ (renderChunks chunks ++ (line ++ 13 :: 10 :: rest)) := by
        simp [renderChunks]
      rw [text]
      by_cases fits : st.Admits c.payload.length
      · have left : ¬(st.afterChunk c).Admits ((chunksBody chunks).length + clen) :=
          fun admits => beyond fun limited => by
            have whole := admits limited
            simp only [ChunkScan.afterChunk] at whole
            simp only [chunksBody, List.flatMap_cons, List.length_append] at whole ⊢
            omega
        have later := ih (fun c inside => valid c (List.mem_cons_of_mem _ inside)) (start.afterChunk c)
          open_ fits left
        rw [start.scan_chunk validChunk open_ (overCap_eq_false fits), ← List.append_assoc, later]
      · have refused := start.scan_over validChunk.line validChunk.size open_ (overCap_eq_true capped fits)
          (c.payload ++ 13 :: 10 :: (renderChunks chunks ++ (line ++ 13 :: 10 :: rest)))
        simpa [Chunk.render] using refused

/-! ## What is complete is a message -/

theorem ChunkScan.AtLine.trailers_of_complete {st st' : ChunkScan} {front text : Bytes}
    (start : st.AtLine front.length) (inside : st.inTrailers = true)
    (run : httpChunkedComplete (front ++ text) st = (.complete, st')) :
    ∃ trailers rest, (∀ line ∈ trailers, NoCrlf line ∧ line ≠ []) ∧
      text = renderTrailers trailers ++ rest := by
  generalize size : text.length = count
  induction count using Nat.strongRecOn generalizing st front text with
  | ind count ih =>
      obtain ⟨line, rest, rfl, plain⟩ := start.line_of_decided run (by decide)
      by_cases filled : line = []
      · subst filled
        exact ⟨[], rest, by simp, by simp [renderTrailers]⟩
      · have apart : front.length + line.length ≠ front.length := by
          have some_ : line.length ≠ 0 := by simpa using filled
          omega
        rw [start.scan_line plain] at run
        simp only [lineTurn, inside, if_true, start.pos, if_neg apart] at run
        have next : ({ st with
            crlf := front.length + line.length, pos := front.length + line.length + 2 } :
            ChunkScan).AtLine (front ++ (line ++ [13, 10])).length := start.next rfl rfl rfl
        have regroup : front ++ (line ++ 13 :: 10 :: rest) = front ++ (line ++ [13, 10]) ++ rest := by simp
        rw [regroup] at run
        have shorter : rest.length < count := by
          rw [← size, List.length_append, List.length_cons, List.length_cons]
          omega
        obtain ⟨trailers, rest, lines, rfl⟩ := ih rest.length shorter next inside (by simpa [inside] using run) rfl
        exact ⟨line :: trailers, rest, forall_line_cons plain filled lines,
          (renderTrailers_cons ..).symm⟩

/-- A size line that a completed scan went over is followed by its payload. -/
theorem ChunkScan.AtLine.payload_of_complete {st st' : ChunkScan} {front line rest : Bytes} {clen : Nat}
    (start : st.AtLine front.length) (open_ : st.inTrailers = false) (plain : NoCrlf line)
    (size : chunkSize line = some clen) (filled : clen ≠ 0)
    (run : httpChunkedComplete (front ++ (line ++ 13 :: 10 :: rest)) st = (.complete, st')) :
    ∃ c : Chunk, c.Valid ∧ overCap st c.payload.length = false ∧
      ∃ rest', line ++ 13 :: 10 :: rest = c.render ++ rest' := by
  rw [start.scan_line plain] at run
  simp only [lineTurn, open_, Bool.false_eq_true, if_false, start.pos, parseChunkSize_line, size,
    if_neg filled] at run
  cases beyond : overCap st clen with
  | true =>
      have beyond' : overCap { st with
          pos := front.length, crlf := front.length + line.length, chunk := clen, inTrailers := false }
          clen = true := beyond
      rw [beyond'] at run
      cases run
  | false =>
      have fits : overCap { st with
          pos := front.length, crlf := front.length + line.length, chunk := clen, inTrailers := false }
          clen = false := beyond
      rw [fits] at run
      have sound : ({ st with
          pos := front.length + line.length + 2, crlf := front.length + line.length, chunk := clen
          total := st.total + clen, inTrailers := false } : ChunkScan).Sound
          (front ++ (line ++ 13 :: 10 :: rest)) := by
        refine ⟨?_, fun _ => by dsimp only; omega, fun none => absurd none (by dsimp only; omega)⟩
        simp only [List.length_append, List.length_cons]
        omega
      simp only [Bool.false_eq_true, if_false] at run
      rw [httpChunkedComplete_eq sound, chunkedTurn_payload (Nat.pos_of_ne_zero filled)] at run
      dsimp only at run
      split at run
      · split at run
        · rename_i stopped
          split at stopped
          · cases stopped
            cases run
          · split at stopped <;> cases stopped
            cases run
        · rename_i went
          split at went
          · cases went
          · rename_i arrived
            split at went
            · cases went
            · rename_i ended
              simp only [not_or, not_not] at ended
              obtain ⟨c, valid, -, count, rest', parts⟩ := chunk_of_parts plain size filled (by omega)
                ended.1 ended.2
              exact ⟨c, valid, by rw [count, beyond], rest', parts⟩
      · cases run

/-- What a scan completes on begins with a message. -/
theorem ChunkScan.AtLine.message_of_complete {st st' : ChunkScan} {front text : Bytes}
    (start : st.AtLine front.length) (open_ : st.inTrailers = false)
    (run : httpChunkedComplete (front ++ text) st = (.complete, st')) :
    ∃ (m : ChunkedMessage) (rest : Bytes), m.Valid ∧ text = m.render ++ rest := by
  generalize size : text.length = count
  induction count using Nat.strongRecOn generalizing st front text with
  | ind count ih =>
      obtain ⟨line, rest, rfl, plain⟩ := start.line_of_decided run (by decide)
      cases parsed : chunkSize line with
      | none =>
          rw [start.scan_line plain] at run
          simp only [lineTurn, open_, Bool.false_eq_true, if_false, start.pos, parseChunkSize_line,
            parsed] at run
          cases run
      | some clen =>
          by_cases filled : clen = 0
          · subst filled
            obtain ⟨next, nextStart, inside, -, same⟩ := start.scan_last open_ plain parsed rest
            have regroup : front ++ (line ++ 13 :: 10 :: rest) = front ++ (line ++ [13, 10]) ++ rest := by
              simp
            rw [same, regroup] at run
            obtain ⟨trailers, rest, lines, rfl⟩ := nextStart.trailers_of_complete inside run
            exact ⟨⟨[], line, trailers⟩, rest, ⟨by simp, plain, parsed, lines⟩,
              by simp [ChunkedMessage.render, renderChunks]⟩
          · obtain ⟨c, validChunk, fits, rest', parts⟩ :=
              start.payload_of_complete open_ plain parsed filled run
            rw [parts] at run size ⊢
            rw [start.scan_chunk validChunk open_ fits, ← List.append_assoc] at run
            have shorter : rest'.length < count := by
              rw [← size, List.length_append, c.render_length]
              omega
            obtain ⟨m, rest, valid, rfl⟩ := ih rest'.length shorter (start.afterChunk c) open_ run rfl
            exact ⟨{ m with chunks := c :: m.chunks }, rest, valid.cons validChunk, by
              rw [ChunkedMessage.render_cons]⟩

/-! ## The two together -/

theorem ChunkScan.start_atLine (max : Nat) : (ChunkScan.start max).AtLine ([] : Bytes).length :=
  ⟨rfl, rfl, Nat.le_refl _⟩

/-- The scan of a message from its start. -/
theorem httpChunkedComplete_render {m : ChunkedMessage} (valid : m.Valid) {max : Nat}
    (fits : max ≠ 0 → m.body.length ≤ max) (rest : Bytes) :
    ∃ st, httpChunkedComplete (m.render ++ rest) (.start max) = (.complete, st) ∧
      st.pos = m.render.length ∧ st.total = m.body.length := by
  have admits : (ChunkScan.start max).Admits m.body.length := fun capped => by
    simpa [ChunkScan.start] using fits capped
  obtain ⟨st, done, pos, total⟩ := (ChunkScan.start_atLine max).scan_render valid rfl admits rest
  exact ⟨st, done, pos, by rw [total, ChunkScan.start, Nat.zero_add]⟩

theorem httpChunkedComplete_refuses {m : ChunkedMessage} (valid : m.Valid) {max : Nat}
    (capped : max ≠ 0) (beyond : max < m.body.length) (rest : Bytes) :
    (httpChunkedComplete (m.render ++ rest) (.start max)).1 = .malformed := by
  have past : ¬(ChunkScan.start max).Admits ((chunksBody m.chunks).length + 0) := fun admits => by
    have fits : 0 + (m.body.length + 0) ≤ max := admits capped
    omega
  have refused := (ChunkScan.start_atLine max).scan_declared valid.chunks valid.lastLine valid.lastSize rfl
    (fun _ => Nat.zero_le _) past (renderTrailers m.trailers ++ rest)
  simpa [ChunkedMessage.render] using refused

/-- A completed scan is the scan of a message within the cap. -/
theorem httpChunkedComplete_message {raw : Bytes} {max : Nat} {st : ChunkScan}
    (run : httpChunkedComplete raw (.start max) = (.complete, st)) :
    ∃ (m : ChunkedMessage) (rest : Bytes), m.Valid ∧ raw = m.render ++ rest ∧
      (max ≠ 0 → m.body.length ≤ max) ∧ st.pos = m.render.length ∧ st.total = m.body.length := by
  obtain ⟨m, rest, valid, rfl⟩ := (ChunkScan.start_atLine max).message_of_complete rfl run
  have fits : max ≠ 0 → m.body.length ≤ max := fun capped => by
    by_contra beyond
    have refused := httpChunkedComplete_refuses valid capped (Nat.lt_of_not_le beyond) rest
    rw [run] at refused
    cases refused
  obtain ⟨st', done, pos, total⟩ := httpChunkedComplete_render valid fits rest
  rw [run] at done
  cases done
  exact ⟨m, rest, valid, rfl, fits, pos, total⟩

/-- The scanner and the decoder agree. The bytes a completed scan has gone over are a message, which
decodes to as many bytes as it counted unless a trailer line is malformed; what decodes is complete,
and no byte after the end the scan reports plays a part. In place and to a separate buffer the decoder
gives the same bytes. -/
theorem scan_decode_agree :
    (∀ raw st, httpChunkedComplete raw (.start 0) = (.complete, st) →
      ∃ m : ChunkedMessage, m.Valid ∧ raw.take st.pos = m.render ∧ st.total = m.body.length ∧
        decodeChunks (raw.take st.pos) =
          if trailersOk true m.trailers then .ok m.body else .error .errProtocol) ∧
    (∀ raw body, decodeChunks raw = .ok body →
      ∃ st, httpChunkedComplete raw (.start 0) = (.complete, st) ∧ st.total = body.length ∧
        ∀ other, decodeChunks (raw.take st.pos ++ other) = .ok body) ∧
    ∀ (memory memory' : Bytes) (dst src dst' src' len : Nat),
      src + len ≤ memory.length → dst ≤ src →
      src' + len ≤ memory'.length → dst' + len ≤ memory'.length →
      (dst' + len ≤ src' ∨ src' + len ≤ dst') →
      (memory.drop src).take len = (memory'.drop src').take len →
      (chunkedDecodeInto memory dst src len).payload dst =
          (chunkedDecodeInto memory' dst' src' len).payload dst' ∧
        (chunkedDecodeInto memory dst src len).payload dst =
          decodeChunks ((memory.drop src).take len) := by
  refine ⟨fun raw st run => ?_, fun raw body run => ?_, ?_⟩
  · obtain ⟨m, rest, valid, rfl, -, pos, total⟩ := httpChunkedComplete_message run
    have cut : (m.render ++ rest).take st.pos = m.render := by rw [pos, List.take_left]
    have decoded := decodeChunks_render valid []
    rw [List.append_nil] at decoded
    exact ⟨m, valid, cut, total, by rw [cut, decoded]; rfl⟩
  · obtain ⟨m, rest, valid, rfl, checked, rfl⟩ := decodeChunks_message run
    have uncapped : 0 ≠ 0 → m.body.length ≤ 0 := fun differs => absurd rfl differs
    obtain ⟨st, done, pos, total⟩ := httpChunkedComplete_render valid uncapped rest
    refine ⟨st, done, total, fun other => ?_⟩
    rw [pos, List.take_left, decodeChunks_render valid, if_pos checked]
  · intro memory memory' dst src dst' src' len inside down inside' room apart same
    have here := (chunkedDecodeInto_gives down inside).payload
    have there := (chunkedDecodeInto_apart inside' room apart).payload
    exact ⟨by rw [here, there, same], here⟩

theorem scan_decode_agree_three :
    (∃ m : ChunkedMessage, m.Valid ∧ exampleChunked = m.render ∧ 3 = m.body.length ∧
      decodeChunks exampleChunked =
        if trailersOk true m.trailers then .ok m.body else .error .errProtocol) ∧
    (∃ st, httpChunkedComplete exampleChunked (.start 0) = (.complete, st) ∧ st.total = 3 ∧
      ∀ other, decodeChunks (exampleChunked.take st.pos ++ other) = .ok (ascii "abc")) ∧
    (chunkedDecodeInto exampleChunked 0 0 13).payload 0 =
      (chunkedDecodeInto (exampleChunked ++ List.replicate 13 0) 13 0 13).payload 13 := by
  obtain ⟨scanned, decoded, placed⟩ := scan_decode_agree
  refine ⟨?_, decoded exampleChunked (ascii "abc") (by decide +kernel), ?_⟩
  · exact scanned exampleChunked ⟨13, 11, 0, 3, 0, true⟩ (by decide +kernel)
  · exact (placed exampleChunked (exampleChunked ++ List.replicate 13 0) 0 0 13 0 13 (by decide +kernel)
      (by decide) (by decide +kernel) (by decide +kernel) (by decide) (by decide +kernel)).1

end WolfCert.Http
