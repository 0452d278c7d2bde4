import WolfCert.Http.ChunkedMessages
import WolfCert.Server.Headers

/-!
# The chunked reader

What `wolfcert_server_read_chunked` makes of a stream is a function of the stream alone, however it is
cut into receives. Memory is not scarce here, except where a lemma says otherwise.
-/

namespace WolfCert.Server

open WolfCert.CLib WolfCert.Http

variable {c c' : Conn}

/-! ## The calls with memory to spare -/

theorem Conn.alloc_free (free : c.memory = []) : c.alloc = (true, c) := by
  obtain ⟨rest, plan, memory⟩ := c
  subst free
  rfl

theorem allocate_some (free : c.memory = []) : allocate c = some (.ok (), c) :=
  Prog.bind_ok_iff.mpr ⟨true, c, Prog.call_ok_iff.mpr (Conn.alloc_free free),
    Prog.require_ok_iff.mpr ⟨rfl, rfl⟩⟩

theorem recvSome_some (room : Nat) (more : c.rest ≠ []) :
    ∃ data c', recvSome room c = some (.ok data, c') := by
  refine ⟨c.rest.take (c.arrives room), { c with
    rest := c.rest.drop (c.arrives room), plan := c.plan.tail }, ?_⟩
  simp [recvSome, more]

theorem recvSome_ended {room : Nat} (ended : c.rest = []) :
    recvSome room c = some (.error .errIo, c) := by
  simp [recvSome, Prog.callMap, ended]

theorem growRaw_some {raw : Bytes} {maxBytes cap : Nat} (room : raw.length < rawMax maxBytes)
    (free : c.memory = []) : ∃ cap', growRaw maxBytes raw cap c = some (.ok cap', c) := by
  unfold growRaw
  rw [Prog.ite_apply]
  split
  · have positive : min (if cap < 2048 then 2048 else cap) (rawMax maxBytes - cap) ≠ 0 := by
      split <;> omega
    exact ⟨_, Prog.bind_ok_iff.mpr ⟨(), c, Prog.require_ok_iff.mpr ⟨positive, rfl⟩,
      Prog.bind_ok_iff.mpr ⟨(), c, allocate_some free, rfl⟩⟩⟩
  · exact ⟨cap, rfl⟩

theorem growRaw_full {raw : Bytes} {maxBytes cap : Nat} (fits : raw.length ≤ cap)
    (limit : cap ≤ rawMax maxBytes) (full : ¬raw.length < rawMax maxBytes) :
    growRaw maxBytes raw cap c = some (.error .errProtocol, c) := by
  have size : raw.length = cap := by omega
  have nothing : ¬min (if cap < 2048 then 2048 else cap) (rawMax maxBytes - cap) ≠ 0 := by
    have left : rawMax maxBytes - cap = 0 := by omega
    rw [left, Nat.min_zero]
    exact fun differs => differs rfl
  simp only [growRaw, Prog.ite_apply, if_pos size]
  exact Prog.bind_of_error (Prog.require_of_not nothing _ _)

/-! ## Decoding -/

def decodeWithin (maxBytes : Nat) (raw : Bytes) : Except Rc Bytes :=
  match decodeChunks raw with
  | .ok body => if body.length ≤ maxBytes then .ok body else .error .errProtocol
  | .error rc => .error rc

theorem decodeWithin_render {m : ChunkedMessage} (valid : m.Valid) (maxBytes : Nat) (rest : Bytes) :
    decodeWithin maxBytes (m.render ++ rest) =
      if m.TrailersOk ∧ m.body.length ≤ maxBytes then .ok m.body else .error .errProtocol := by
  rw [decodeWithin, decodeChunks_render valid]
  by_cases checked : m.TrailersOk
  · simp only [checked, if_true, true_and]
  · simp only [checked, if_false, false_and]

/-- `wolfcert_http_chunked_decode` with and without memory. -/
theorem chunkedDecode_eq (maxBytes : Nat) (raw : Bytes) (c : Conn) :
    chunkedDecode maxBytes raw c =
      if raw = [] then some (.error .errProtocol, c)
      else if c.alloc.1 = true then some (decodeWithin maxBytes raw, c.alloc.2)
      else some (.error .errMemory, c.alloc.2) := by
  unfold chunkedDecode
  by_cases empty : raw = []
  · rw [if_pos empty]
    exact Prog.bind_of_error (Prog.require_of_not (not_not.mpr empty) _ _)
  · rw [if_neg empty, Prog.bind_of_ok (Prog.require_of empty _ _)]
    by_cases granted : c.alloc.1 = true
    · have allocated : allocate c = some (.ok (), c.alloc.2) :=
        Prog.bind_ok_iff.mpr ⟨true, c.alloc.2, Prog.call_ok_iff.mpr (Prod.ext granted rfl),
          Prog.require_ok_iff.mpr ⟨rfl, rfl⟩⟩
      rw [if_pos granted, Prog.bind_of_ok allocated, decodeWithin]
      cases decoded : decodeChunks raw with
      | error rc => exact Prog.bind_of_error (by simp [Prog.callMap])
      | ok body =>
          rw [Prog.bind_of_ok (Prog.callMap_ok_iff.mpr rfl)]
          dsimp only
          split
          · exact Prog.bind_of_ok (Prog.require_of ‹_› _ _)
          · exact Prog.bind_of_error (Prog.require_of_not ‹_› _ _)
    · have refused : allocate c = some (.error .errMemory, c.alloc.2) := by
        have called : (Prog.call Conn.alloc : Prog Conn Rc Bool) c = some (.ok c.alloc.1, c.alloc.2) := rfl
        rw [allocate, Prog.bind_of_ok called, Prog.require_of_not granted]
      rw [if_neg granted, Prog.bind_of_error refused]

theorem chunkedDecode_free (maxBytes : Nat) (raw : Bytes) (free : c.memory = []) :
    chunkedDecode maxBytes raw c = some (decodeWithin maxBytes raw, c) := by
  rw [chunkedDecode_eq, Conn.alloc_free free]
  split
  · rename_i empty
    subst empty
    rfl
  · rfl

/-! ## The outcome of a stream -/

/-- What is made of a stream: the body and the size of its encoding. -/
def chunkedOutcome (maxBytes : Nat) (stream : Bytes) : Except Rc (Bytes × Nat) :=
  match httpChunkedComplete (stream.take (rawMax maxBytes)) (.start maxBytes) with
  | (.malformed, _) => .error .errProtocol
  | (.more, _) => .error (if stream.length < rawMax maxBytes then .errIo else .errProtocol)
  | (.complete, scan) =>
      match decodeWithin maxBytes (stream.take (rawMax maxBytes)) with
      | .ok body => .ok (body, scan.pos)
      | .error rc => .error rc

/-- Once a verdict is reached the rest of the stream plays no part. -/
theorem chunkedOutcome_settled {maxBytes : Nat} {raw : Bytes} {verdict : Framing} {scan : ChunkScan}
    (limit : raw.length ≤ rawMax maxBytes)
    (settled : ∀ more, httpChunkedComplete (raw ++ more) (.start maxBytes) = (verdict, scan))
    (decided : verdict ≠ .more) (later : Bytes) :
    chunkedOutcome maxBytes (raw ++ later) =
      match verdict with
      | .complete =>
          match decodeWithin maxBytes raw with
          | .ok body => .ok (body, scan.pos)
          | .error rc => .error rc
      | _ => .error .errProtocol := by
  have front : (raw ++ later).take (rawMax maxBytes) = raw ++ later.take (rawMax maxBytes - raw.length) := by
    rw [List.take_append, List.take_of_length_le limit]
  rw [chunkedOutcome, front, settled]
  cases verdict with
  | more => exact absurd rfl decided
  | malformed => rfl
  | complete =>
      have here := settled []
      rw [List.append_nil] at here
      obtain ⟨m, rest, valid, rfl, -⟩ := httpChunkedComplete_message here
      dsimp only
      rw [List.append_assoc, decodeWithin_render valid, decodeWithin_render valid]

/-- The loop gives the outcome of the stream, wherever it is in it. -/
theorem readChunkedLoop_outcome {maxBytes fuel cap : Nat} {raw : Bytes} {scan : ChunkScan}
    (continues : scan.Continues raw maxBytes) (fits : raw.length ≤ cap) (limit : cap ≤ rawMax maxBytes)
    (enough : rawMax maxBytes - raw.length < fuel) (free : c.memory = []) :
    ∃ c', readChunkedLoop maxBytes fuel raw cap scan c =
      some (chunkedOutcome maxBytes (raw ++ c.rest), c') ∧ c'.memory = [] := by
  induction fuel generalizing raw cap scan c with
  | zero => omega
  | succ fuel ih =>
      cases turned : httpChunkedComplete raw scan with
      | mk verdict next =>
          obtain ⟨resumes, stops⟩ := continues.verdict turned
          have within : raw.length ≤ rawMax maxBytes := by omega
          cases verdict with
          | malformed =>
              rw [chunkedOutcome_settled within (stops (by decide)) (by decide)]
              exact ⟨c, by simp only [readChunkedLoop, turned, Prog.fail_apply], free⟩
          | complete =>
              rw [chunkedOutcome_settled within (stops (by decide)) (by decide)]
              refine ⟨c, ?_, free⟩
              simp only [readChunkedLoop, turned]
              have decoded := chunkedDecode_free maxBytes raw free
              cases result : decodeWithin maxBytes raw with
              | ok body =>
                  rw [result] at decoded
                  rw [Prog.bind_of_ok decoded]
                  rfl
              | error rc =>
                  rw [result] at decoded
                  rw [Prog.bind_of_error decoded]
          | more =>
              have fresh : httpChunkedComplete raw (.start maxBytes) = (.more, next) := by
                have same := continues.same []
                rw [List.append_nil, turned] at same
                exact same.symm
              simp only [readChunkedLoop, turned]
              by_cases room : raw.length < rawMax maxBytes
              · obtain ⟨cap', grown⟩ := growRaw_some room free
                obtain ⟨-, larger, limit'⟩ := growRaw_ok grown fits limit
                rw [Prog.bind_of_ok grown]
                by_cases ended : c.rest = []
                · rw [Prog.bind_of_error (recvSome_ended ended), chunkedOutcome, ended, List.append_nil,
                    List.take_of_length_le within, fresh]
                  dsimp only
                  rw [if_pos room]
                  exact ⟨c, rfl, free⟩
                · obtain ⟨data, c₁, received⟩ := recvSome_some (cap' - raw.length) ended
                  obtain ⟨arrived, short, some, memory⟩ := recvSome_ok received
                  have size : 0 < data.length := List.length_pos_iff.mpr (some (by omega))
                  have longer : (raw ++ data).length = raw.length + data.length := List.length_append
                  obtain ⟨c', ran, free'⟩ := ih ((resumes rfl).append data) (by omega) limit' (by omega)
                    (memory.trans free)
                  rw [Prog.bind_of_ok received]
                  refine ⟨c', ?_, free'⟩
                  rw [ran, List.append_assoc, ← arrived]
              · have full : raw.length = rawMax maxBytes := by omega
                rw [Prog.bind_of_error (growRaw_full fits limit room), chunkedOutcome, ← full, List.take_left,
                  fresh]
                dsimp only
                rw [if_neg (by rw [List.length_append]; omega)]
                exact ⟨c, rfl, free⟩

theorem readChunked_eq {maxBytes : Nat} {held : Bytes} (limit : held.length ≤ rawMax maxBytes)
    (free : c.memory = []) :
    readChunked maxBytes held c =
      readChunkedLoop maxBytes (rawMax maxBytes + 1) held held.length (.start maxBytes) c := by
  rw [readChunked, Prog.bind_of_ok (Prog.require_of limit _ _), Prog.ite_apply]
  split
  · rfl
  · exact Prog.bind_of_ok (allocate_some free)

theorem readChunked_outcome {maxBytes : Nat} {held : Bytes} (limit : held.length ≤ rawMax maxBytes)
    (free : c.memory = []) :
    ∃ c', readChunked maxBytes held c = some (chunkedOutcome maxBytes (held ++ c.rest), c') ∧
      c'.memory = [] := by
  rw [readChunked_eq limit free]
  exact readChunkedLoop_outcome (.start held maxBytes) (Nat.le_refl _) limit
    (Nat.lt_succ_of_le (Nat.sub_le _ _)) free

theorem chunkedOutcome_malformed {maxBytes : Nat} {stream : Bytes}
    (refused : (httpChunkedComplete stream (.start maxBytes)).1 = .malformed) :
    chunkedOutcome maxBytes stream = .error .errProtocol := by
  cases front : httpChunkedComplete (stream.take (rawMax maxBytes)) (.start maxBytes) with
  | mk verdict scan =>
      have stops := ((ChunkScan.Continues.start _ maxBytes).verdict front).2
      cases verdict with
      | malformed => simp only [chunkedOutcome, front]
      | complete =>
          have whole := stops (by decide) (stream.drop (rawMax maxBytes))
          rw [List.take_append_drop] at whole
          rw [whole] at refused
          cases refused
      | more =>
          have longer : ¬stream.length < rawMax maxBytes := fun short => by
            rw [List.take_of_length_le (Nat.le_of_lt short)] at front
            rw [front] at refused
            cases refused
          simp only [chunkedOutcome, front, if_neg longer]

/-- A body that is read is that of the message the stream begins with, which ends within the limit and
before which nothing is complete. -/
theorem chunkedOutcome_ok {maxBytes size : Nat} {stream body : Bytes}
    (run : chunkedOutcome maxBytes stream = .ok (body, size)) :
    ∃ (m : ChunkedMessage) (rest : Bytes), m.Valid ∧ stream = m.render ++ rest ∧ m.TrailersOk ∧
      m.body = body ∧ m.render.length = size ∧ size ≤ rawMax maxBytes ∧ body.length ≤ maxBytes := by
  unfold chunkedOutcome at run
  split at run
  · cases run
  · cases run
  · rename_i scan complete
    obtain ⟨m, rest, valid, shape, -, pos, -⟩ := httpChunkedComplete_message complete
    rw [shape, decodeWithin_render valid] at run
    have fits : m.TrailersOk ∧ m.body.length ≤ maxBytes := by
      by_contra refused
      rw [if_neg refused] at run
      cases run
    rw [if_pos fits] at run
    cases run
    refine ⟨m, rest ++ stream.drop (rawMax maxBytes), valid, ?_, fits.1, rfl, pos.symm, ?_, fits.2⟩
    · rw [← List.append_assoc, ← shape, List.take_append_drop]
    · have size := congrArg List.length shape
      rw [List.length_take, List.length_append] at size
      omega

/-- Nothing shorter than the message is settled. -/
theorem waits_before_end {m : ChunkedMessage} (valid : m.Valid) {max n : Nat}
    (fits : max ≠ 0 → m.body.length ≤ max) (rest : Bytes) (shorter : n < m.render.length) :
    (httpChunkedComplete ((m.render ++ rest).take n) (.start max)).1 = .more := by
  obtain ⟨st, done, pos, -⟩ := httpChunkedComplete_render valid fits rest
  cases front : httpChunkedComplete ((m.render ++ rest).take n) (.start max) with
  | mk verdict scan =>
      by_contra settled
      have whole := ((ChunkScan.Continues.start _ max).verdict front).2 settled
        ((m.render ++ rest).drop n)
      rw [List.take_append_drop, done] at whole
      cases whole
      have reached := httpChunkedComplete_pos (ChunkScan.start_sound max _) front
      rw [List.length_take] at reached
      omega

/-! ## What is buffered -/

/-- The states of the loop: the buffer, its size, the scan and the connection. -/
inductive ChunkedTurns (maxBytes : Nat) (held : Bytes) (c : Conn) :
    Bytes → Nat → ChunkScan → Conn → Prop where
  | start : ChunkedTurns maxBytes held c held held.length (.start maxBytes) c
  | turn {raw data : Bytes} {cap cap' : Nat} {scan scan' : ChunkScan} {d d' d'' : Conn}
      (before : ChunkedTurns maxBytes held c raw cap scan d)
      (waits : httpChunkedComplete raw scan = (.more, scan'))
      (grown : growRaw maxBytes raw cap d = some (.ok cap', d'))
      (received : recvSome (cap' - raw.length) d' = some (.ok data, d'')) :
      ChunkedTurns maxBytes held c (raw ++ data) cap' scan' d''

/-- The loop goes through these states. -/
theorem ChunkedTurns.loop {maxBytes cap : Nat} {held raw : Bytes} {scan : ChunkScan} {d : Conn}
    (turns : ChunkedTurns maxBytes held c raw cap scan d) :
    ∃ used, ∀ fuel, readChunkedLoop maxBytes (fuel + used) held held.length (.start maxBytes) c =
      readChunkedLoop maxBytes fuel raw cap scan d := by
  induction turns with
  | start => exact ⟨0, fun _ => rfl⟩
  | turn before waits grown received ih =>
      obtain ⟨used, same⟩ := ih
      refine ⟨used + 1, fun fuel => ?_⟩
      have step := same (fuel + 1)
      rw [readChunkedLoop, waits] at step
      dsimp only at step
      rw [Prog.bind_of_ok grown, Prog.bind_of_ok received] at step
      rw [← step, Nat.add_assoc, Nat.add_comm 1 used]

theorem ChunkedTurns.bounded {maxBytes cap : Nat} {held raw : Bytes} {scan : ChunkScan} {d : Conn}
    (limit : held.length ≤ rawMax maxBytes) (turns : ChunkedTurns maxBytes held c raw cap scan d) :
    raw.length ≤ cap ∧ cap ≤ rawMax maxBytes := by
  induction turns with
  | start => exact ⟨Nat.le_refl _, limit⟩
  | turn before waits grown received ih =>
      obtain ⟨-, larger, within⟩ := growRaw_ok grown ih.1 ih.2
      obtain ⟨-, short, -⟩ := recvSome_ok received
      refine ⟨?_, within⟩
      rw [List.length_append]
      omega

/-- The chunked reader gives one result for a stream, whatever part of it is held already and however
the rest arrives. A body it returns is the decoding of the shortest complete message the stream begins
with and is within the cap. Declared sizes past the cap and messages that do not end within the limit
of the buffer are refused, and the buffer never goes past that limit. -/
theorem readChunked_stream {maxBytes : Nat} (positive : 0 < maxBytes) (stream : Bytes) :
    ∃ result,
      (∀ held c, held ++ c.rest = stream → held.length ≤ rawMax maxBytes → c.memory = [] →
        ∃ c', readChunked maxBytes held c = some (result, c')) ∧
      (∀ body size, result = .ok (body, size) →
        body.length ≤ maxBytes ∧ size ≤ stream.length ∧ decodeChunks (stream.take size) = .ok body ∧
          (httpChunkedComplete (stream.take size) (.start maxBytes)).1 = .complete ∧
          ∀ n < size, (httpChunkedComplete (stream.take n) (.start maxBytes)).1 = .more) ∧
      (∀ chunks line clen rest, (∀ chunk ∈ chunks, Chunk.Valid chunk) → NoCrlf line →
        chunkSize line = some clen → stream = renderChunks chunks ++ (line ++ 13 :: 10 :: rest) →
        maxBytes < (chunksBody chunks).length + clen → result = .error .errProtocol) ∧
      (∀ m rest, ChunkedMessage.Valid m → stream = m.render ++ rest →
        rawMax maxBytes < m.render.length → result = .error .errProtocol) ∧
      ∀ held c raw cap scan d, held.length ≤ rawMax maxBytes →
        ChunkedTurns maxBytes held c raw cap scan d → raw.length ≤ rawMax maxBytes := by
  refine ⟨chunkedOutcome maxBytes stream, ?_, ?_, ?_, ?_, ?_⟩
  · rintro held c rfl limit free
    obtain ⟨c', ran, -⟩ := readChunked_outcome limit free
    exact ⟨c', ran⟩
  · intro body size run
    obtain ⟨m, rest, valid, rfl, checked, rfl, rfl, -, short⟩ := chunkedOutcome_ok run
    obtain ⟨st, complete, -⟩ := httpChunkedComplete_render valid (fun _ => short) []
    have decoded := decodeChunks_render valid []
    rw [List.append_nil] at complete decoded
    rw [List.take_left, complete, decoded, if_pos checked]
    refine ⟨short, ?_, rfl, rfl, fun n shorter => waits_before_end valid (fun _ => short) rest shorter⟩
    rw [List.length_append]
    omega
  · rintro chunks line clen rest valid plain size rfl beyond
    have past : ¬(ChunkScan.start maxBytes).Admits ((chunksBody chunks).length + clen) := fun admits => by
      have fits : 0 + ((chunksBody chunks).length + clen) ≤ maxBytes := admits (Nat.ne_of_gt positive)
      omega
    exact chunkedOutcome_malformed ((ChunkScan.start_atLine maxBytes).scan_declared valid plain size rfl
      (fun _ => Nat.zero_le _) past rest)
  · rintro m rest valid rfl long
    by_cases fits : m.body.length ≤ maxBytes
    · have waits := waits_before_end valid (fun _ => fits) rest long
      have whole : ¬(m.render ++ rest).length < rawMax maxBytes := by
        rw [List.length_append]
        omega
      rw [chunkedOutcome]
      cases front : httpChunkedComplete ((m.render ++ rest).take (rawMax maxBytes)) (.start maxBytes) with
      | mk verdict scan =>
          rw [front] at waits
          dsimp only at waits
          subst waits
          simp only [if_neg whole]
    · exact chunkedOutcome_malformed (httpChunkedComplete_refuses valid (Nat.ne_of_gt positive)
        (Nat.lt_of_not_le fits) rest)
  · intro held c raw cap scan d limit turns
    obtain ⟨fits, within⟩ := turns.bounded limit
    exact Nat.le_trans fits within

/-- A part of the message is held, the rest arrives byte by byte. -/
theorem readChunked_stream_bytes :
    (∃ c', readChunked 3 (exampleChunked.take 6) ⟨exampleChunked.drop 6, [1, 1, 1], []⟩ =
      some (.ok (ascii "abc", 13), c')) ∧
    ∀ n < 13, (httpChunkedComplete (exampleChunked.take n) (.start 3)).1 = .more := by
  obtain ⟨result, reads, succeeds, -⟩ := readChunked_stream (by decide : 0 < 3) exampleChunked
  obtain ⟨c', ran⟩ := reads (exampleChunked.take 6) ⟨exampleChunked.drop 6, [1, 1, 1], []⟩ rfl
    (by decide +kernel) rfl
  have computed : ∃ c', readChunked 3 (exampleChunked.take 6) ⟨exampleChunked.drop 6, [1, 1, 1], []⟩ =
      some (.ok (ascii "abc", 13), c') := ⟨_, rfl⟩
  obtain ⟨c'', computed⟩ := computed
  rw [ran, Option.some.injEq, Prod.mk.injEq] at computed
  obtain ⟨-, -, -, -, waits⟩ := succeeds (ascii "abc") 13 computed.1
  exact ⟨⟨c', by rw [ran, computed.1]⟩, waits⟩

/-! ## The encoder's side -/

/-- A piece of a body with the spelling of its size. -/
structure Piece where
  size : SizeText
  bytes : Bytes
deriving DecidableEq, Repr

/-- Non-empty, short enough for the size to be read, and of the size it states. -/
structure Piece.Fits (p : Piece) : Prop where
  filled : p.bytes ≠ []
  short : p.bytes.length < 2 ^ 32
  size : p.size.Spells p.bytes.length

def Piece.chunk (p : Piece) : Chunk := ⟨p.size.line, p.bytes⟩

def encodeChunked (pieces : List Piece) (last : SizeText) (trailers : List Bytes) : ChunkedMessage :=
  ⟨pieces.map Piece.chunk, last.line, trailers⟩

theorem encodeChunked_valid {pieces : List Piece} {last : SizeText} {trailers : List Bytes}
    (fits : ∀ p ∈ pieces, p.Fits) (zero : last.Spells 0)
    (lines : ∀ line ∈ trailers, NoCrlf line ∧ line ≠ []) : (encodeChunked pieces last trailers).Valid where
  chunks c member := by
    obtain ⟨p, inside, rfl⟩ := List.mem_map.mp member
    have piece := fits p inside
    exact ⟨piece.size.noCrlf, piece.size.chunkSize piece.short, piece.filled⟩
  lastLine := zero.noCrlf
  lastSize := zero.chunkSize (by decide)
  trailers := lines

/-- A body encoded in pieces, with any spelling of their sizes, any extensions and any well-formed
trailer section, decodes to itself if it is within the cap and is refused otherwise, whatever follows.
Only a refused allocation is another matter. -/
theorem chunked_round_trip {pieces : List Piece} {last : SizeText} {trailers : List Bytes}
    (fits : ∀ p ∈ pieces, p.Fits) (zero : last.Spells 0)
    (lines : ∀ line ∈ trailers, NoCrlf line ∧ line ≠ []) (fields : trailersOk true trailers = true)
    (rest : Bytes) (maxBytes : Nat) (c : Conn) :
    chunkedDecode maxBytes ((encodeChunked pieces last trailers).render ++ rest) c =
      some (if c.alloc.1 = true then
          if (pieces.flatMap Piece.bytes).length ≤ maxBytes then .ok (pieces.flatMap Piece.bytes)
          else .error .errProtocol
        else .error .errMemory, c.alloc.2) := by
  have valid := encodeChunked_valid fits zero lines
  have body : (encodeChunked pieces last trailers).body = pieces.flatMap Piece.bytes := by
    simp [encodeChunked, ChunkedMessage.body, chunksBody, Piece.chunk, List.flatMap_map]
  have checked : (encodeChunked pieces last trailers).TrailersOk := fields
  have something : (encodeChunked pieces last trailers).render ++ rest ≠ [] := by
    simp [ChunkedMessage.render]
  rw [chunkedDecode_eq, if_neg something, decodeWithin_render valid, body]
  simp only [checked, true_and]
  split
  · rfl
  · rfl

def examplePieces : List Piece :=
  [⟨⟨ascii "00A", ascii " ;x"⟩, ascii "0\r\n\r\n56789"⟩, ⟨⟨ascii "1", []⟩, ascii "z"⟩]

/-- A payload that looks like an end, leading zeros, an extension, a folded trailer field, and more
bytes behind. -/
theorem chunked_round_trip_two :
    (∀ p ∈ examplePieces, p.Fits) ∧
    chunkedDecode 11 ((encodeChunked examplePieces ⟨ascii "000", []⟩ [ascii "T: 1", ascii " 2"]).render ++
      ascii "more") ⟨[], [], []⟩ = some (.ok (ascii "0\r\n\r\n56789z"), ⟨[], [], []⟩) := by
  have first : (⟨ascii "00A", ascii " ;x"⟩ : SizeText).Spells 10 :=
    ⟨by decide +kernel, by decide +kernel, by decide +kernel,
      .inr ⟨ascii " ", ascii "x", by decide +kernel, by decide +kernel, by decide +kernel⟩⟩
  have second : (⟨ascii "1", []⟩ : SizeText).Spells 1 :=
    ⟨by decide +kernel, by decide +kernel, by decide +kernel, .inl rfl⟩
  have zero : (⟨ascii "000", []⟩ : SizeText).Spells 0 :=
    ⟨by decide +kernel, by decide +kernel, by decide +kernel, .inl rfl⟩
  have fits : ∀ p ∈ examplePieces, p.Fits := by
    intro p member
    simp only [examplePieces, List.mem_cons, List.not_mem_nil, or_false] at member
    rcases member with rfl | rfl
    · exact ⟨by decide +kernel, by decide +kernel, first⟩
    · exact ⟨by decide +kernel, by decide +kernel, second⟩
  refine ⟨fits, ?_⟩
  rw [chunked_round_trip fits zero (by decide +kernel) (by decide +kernel)]
  decide +kernel

end WolfCert.Server
