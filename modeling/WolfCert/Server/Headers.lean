import WolfCert.Server.Request

/-!
# Header blocks

Which lines a server examines before the body, and where it takes the body from.
-/

namespace WolfCert.Server

open WolfCert.CLib WolfCert.Http

/-! ## Lines -/

/-- A line without the CR at its end. -/
def stripCr (line : Bytes) : Bytes := if line.getLast? = some 13 then line.dropLast else line

theorem dropWhile_lf {p rest : Bytes} {c : UInt8} (found : p.dropWhile (· != 10) = c :: rest) :
    10 ∉ p.takeWhile (· != 10) ∧ p = p.takeWhile (· != 10) ++ 10 :: rest := by
  induction p with
  | nil => cases found
  | cons b p ih =>
      by_cases lf : b = 10
      · subst lf
        simp at found
        simp [found]
      · have other : (b != 10) = true := by simpa using lf
        simp only [List.dropWhile_cons, other, if_true] at found
        obtain ⟨absent, whole⟩ := ih found
        simp only [List.takeWhile_cons, other, if_true, List.mem_cons, not_or, List.cons_append,
          List.cons.injEq, true_and]
        exact ⟨⟨Ne.symm lf, absent⟩, whole⟩

theorem readLine_eq_some {p line rest : Bytes} :
    readLine p = some (line, rest) ↔ ∃ body, 10 ∉ body ∧ p = body ++ 10 :: rest ∧ line = stripCr body := by
  constructor
  · intro read
    unfold readLine at read
    split at read
    · cases read
    · rename_i found
      obtain ⟨absent, whole⟩ := dropWhile_lf found
      cases read
      exact ⟨_, absent, whole, rfl⟩
  · rintro ⟨body, absent, rfl, rfl⟩
    simp only [readLine, takeWhile_front absent, dropWhile_front absent, stripCr]

theorem readLine_append {p line rest : Bytes} (more : Bytes) (read : readLine p = some (line, rest)) :
    readLine (p ++ more) = some (line, rest ++ more) := by
  obtain ⟨body, absent, rfl, rfl⟩ := readLine_eq_some.mp read
  exact readLine_eq_some.mpr ⟨body, absent, by simp, rfl⟩

theorem readLine_shorter {p line rest : Bytes} (read : readLine p = some (line, rest)) :
    rest.length < p.length := by
  obtain ⟨body, -, rfl, -⟩ := readLine_eq_some.mp read
  simp only [List.length_append, List.length_cons]
  omega

theorem readLine_crlf (rest : Bytes) : readLine (13 :: 10 :: rest) = some ([], rest) :=
  readLine_eq_some.mpr ⟨[13], by decide, rfl, rfl⟩

/-- The text is made of those lines, each with its end. -/
inductive Lines : Bytes → List Bytes → Prop where
  | nil : Lines [] []
  | cons {p line rest : Bytes} {lines : List Bytes} (read : readLine p = some (line, rest))
      (others : Lines rest lines) : Lines p (line :: lines)

theorem stripCr_subset (line : Bytes) : stripCr line ⊆ line := by
  unfold stripCr
  split
  · exact List.dropLast_subset line
  · exact List.Subset.refl line

theorem readLine_unbroken {p line rest : Bytes} (read : readLine p = some (line, rest)) : 10 ∉ line := by
  obtain ⟨body, absent, -, rfl⟩ := readLine_eq_some.mp read
  exact fun inside => absent (stripCr_subset body inside)

theorem Lines.unbroken {p : Bytes} {lines : List Bytes} (front : Lines p lines) :
    ∀ line ∈ lines, 10 ∉ line := by
  induction front with
  | nil => nofun
  | cons read _ ih => exact List.forall_mem_cons.mpr ⟨readLine_unbroken read, ih⟩

theorem Lines.uncons {p line : Bytes} {lines : List Bytes} (front : Lines p (line :: lines)) :
    ∃ rest, readLine p = some (line, rest) ∧ Lines rest lines := by
  cases front with
  | cons read others => exact ⟨_, read, others⟩

/-- No header line follows: the next line is empty, or it has no end. -/
def NoHeader (tail : Bytes) : Prop := readLine tail = none ∨ ∃ rest, readLine tail = some ([], rest)

/-- A text has at most one front of lines that are not empty before it has no header. -/
theorem Lines.unique {text text' tail tail' : Bytes} {lines lines' : List Bytes}
    (front : Lines text lines) (front' : Lines text' lines') (filled : ∀ line ∈ lines, line ≠ [])
    (filled' : ∀ line ∈ lines', line ≠ []) (ends : NoHeader tail) (ends' : NoHeader tail')
    (same : text ++ tail = text' ++ tail') : lines = lines' ∧ tail = tail' := by
  induction front generalizing text' lines' with
  | nil =>
      cases front' with
      | nil => exact ⟨rfl, same⟩
      | cons read others =>
          rw [List.nil_append] at same
          rw [NoHeader, same, readLine_append tail' read] at ends
          rcases ends with none | ⟨rest, empty⟩
          · cases none
          · cases empty
            exact absurd rfl (filled' _ List.mem_cons_self)
  | cons read others ih =>
      cases front' with
      | nil =>
          rw [List.nil_append] at same
          rw [NoHeader, ← same, readLine_append tail read] at ends'
          rcases ends' with none | ⟨rest, empty⟩
          · cases none
          · cases empty
            exact absurd rfl (filled _ List.mem_cons_self)
      | cons read' others' =>
          have first := readLine_append tail read
          rw [same, readLine_append tail' read'] at first
          obtain ⟨rfl, rest⟩ := Prod.mk.inj (Option.some.inj first)
          obtain ⟨rfl, tails⟩ := ih others' (fun line inside => filled line (List.mem_cons_of_mem _ inside))
            (fun line inside => filled' line (List.mem_cons_of_mem _ inside)) rest.symm
          exact ⟨rfl, tails⟩

/-- What the loop over the header lines went through. -/
theorem headerLoop_lines {step : HeaderStep} {fuel : Nat} {p rest : Bytes} {st st' : HeadState}
    {lines : List Bytes} {c c' : Conn} (enough : p.length < fuel)
    (run : headerLoop step fuel p st c = some (.ok (st', lines, rest), c')) :
    (∀ line ∈ lines, line ≠ []) ∧ ∃ text tail, p = text ++ tail ∧ Lines text lines ∧
      (readLine tail = none ∧ rest = tail ∨ readLine tail = some ([], rest)) := by
  induction fuel generalizing p st lines c with
  | zero => omega
  | succ fuel ih =>
      cases read : readLine p with
      | none =>
          simp only [headerLoop, read] at run
          cases run
          exact ⟨nofun, [], rest, rfl, .nil, .inl ⟨read, rfl⟩⟩
      | some found =>
          obtain ⟨line, next⟩ := found
          simp only [headerLoop, read, Prog.ite_apply] at run
          split at run
          · rename_i empty
            cases run
            exact ⟨nofun, [], p, rfl, .nil, .inr (by rw [read, empty])⟩
          · rename_i filled
            simp only [Prog.bind_ok_iff] at run
            obtain ⟨st₁, _, -, ⟨st₂, later, unread⟩, _, ran, ended⟩ := run
            cases ended
            have shorter := readLine_shorter read
            obtain ⟨others, text, tail, whole, front, stops⟩ := ih (by omega) ran
            obtain ⟨body, absent, shape, stripped⟩ := readLine_eq_some.mp read
            refine ⟨?_, body ++ 10 :: text, tail, ?_, .cons ?_ front, stops⟩
            · rintro line' inside
              rcases List.mem_cons.mp inside with rfl | later
              · exact filled
              · exact others line' later
            · rw [shape, whole]
              simp
            · exact readLine_eq_some.mpr ⟨body, absent, rfl, stripped⟩

/-- The header lines are read from the buffer alone. -/
theorem headerLine_rest (authorizes : Bool) (st : HeadState) (line after : Bytes) :
    (headerLine authorizes st line after).Respects fun c c' => c'.rest = c.rest := by
  have refl : ∀ c : Conn, c.rest = c.rest := fun _ => rfl
  unfold headerLine
  split
  · exact .fail refl _
  · split
    · exact .fail refl _
    · exact .pure refl _
    · exact .ite (fun _ => .bind (.require refl _ _) (fun first second => second.trans first) fun _ =>
        .bind (.call fun _ => rfl) (fun first second => second.trans first) fun _ => .pure refl _)
        fun _ => .pure refl _

theorem headerLoop_rest (authorizes : Bool) (fuel : Nat) (p : Bytes) (st : HeadState) :
    (headerLoop (headerLine authorizes) fuel p st).Respects fun c c' => c'.rest = c.rest := by
  have refl : ∀ c : Conn, c.rest = c.rest := fun _ => rfl
  induction fuel generalizing p st with
  | zero => exact .pure refl _
  | succ fuel ih =>
      unfold headerLoop
      split
      · exact .pure refl _
      · exact .ite (fun _ => .pure refl _) fun _ =>
          .bind (headerLine_rest _ _ _ _) (fun first second => second.trans first) fun st =>
            .bind (ih _ st) (fun first second => second.trans first) fun _ => .pure refl _

/-! ## What is received -/

variable {c c' : Conn}

theorem recvSome_ok {room : Nat} {data : Bytes} (run : recvSome room c = some (.ok data, c')) :
    c.rest = data ++ c'.rest ∧ data.length ≤ room ∧ (room ≠ 0 → data ≠ []) ∧ c'.memory = c.memory := by
  simp only [recvSome, Prog.callMap_ok_iff] at run
  split at run
  · cases run
  · rename_i more
    cases run
    refine ⟨(List.take_append_drop ..).symm, ?_, fun asked => ?_, rfl⟩
    · rw [List.length_take, Conn.arrives]
      omega
    · have size := List.length_pos_iff.mpr more
      simp only [ne_eq, List.take_eq_nil_iff, more, or_false, Conn.arrives]
      omega

theorem allocate_ok {u : Unit} (run : allocate c = some (.ok u, c')) : c'.rest = c.rest := by
  simp only [allocate, Prog.bind_ok_iff, Prog.call_ok_iff, Prog.require_ok_iff] at run
  obtain ⟨granted, _, made, -, rfl⟩ := run
  cases made
  rfl

/-- The header buffer holds the next bytes of the stream; it was filled until the blank line showed or
it was full. -/
theorem receiveHead_ok {cap fuel : Nat} {buf buf' : Bytes} (room : buf.length ≤ cap)
    (enough : cap - buf.length ≤ fuel)
    (run : receiveHead cap fuel buf c = some (.ok buf', c')) :
    buf'.length ≤ cap ∧ buf' ++ c'.rest = buf ++ c.rest ∧
      ((strstr crlfCrlf (cString buf')).isSome = true ∨ buf'.length = cap) := by
  induction fuel generalizing buf c with
  | zero =>
      cases run
      exact ⟨room, rfl, .inr (by omega)⟩
  | succ fuel ih =>
      simp only [receiveHead, Prog.ite_apply] at run
      split at run
      · simp only [Prog.bind_ok_iff, Prog.ite_apply] at run
        obtain ⟨data, c₁, received, run⟩ := run
        obtain ⟨arrived, short, some, -⟩ := recvSome_ok received
        have size : 0 < data.length := List.length_pos_iff.mpr (some (by omega))
        have within : (buf ++ data).length ≤ cap := by
          rw [List.length_append]
          omega
        have stream : buf ++ data ++ c₁.rest = buf ++ c.rest := by rw [arrived, List.append_assoc]
        split at run
        · cases run
          exact ⟨within, stream, .inl ‹_›⟩
        · rw [← stream]
          refine ih within ?_ run
          rw [List.length_append]
          omega
      · cases run
        exact ⟨room, rfl, .inr (by omega)⟩

theorem recvLeft_ok {fuel left : Nat} {body body' : Bytes} (enough : left ≤ fuel)
    (run : recvLeft fuel body left c = some (.ok body', c')) :
    left ≤ c.rest.length ∧ body' = body ++ c.rest.take left ∧ c'.rest = c.rest.drop left := by
  induction fuel generalizing body left c with
  | zero =>
      obtain rfl : left = 0 := by omega
      cases run
      simp
  | succ fuel ih =>
      simp only [recvLeft, Prog.ite_apply] at run
      split at run
      · rename_i done
        cases run
        simp [done]
      · simp only [Prog.bind_ok_iff] at run
        obtain ⟨data, c₁, received, run⟩ := run
        obtain ⟨arrived, short, some, -⟩ := recvSome_ok received
        have size : 0 < data.length := List.length_pos_iff.mpr (some ‹_›)
        obtain ⟨within, whole, after⟩ := ih (by omega) run
        rw [whole, after, arrived]
        refine ⟨by rw [List.length_append]; omega, ?_, ?_⟩
        · rw [List.take_append, List.take_of_length_le short, List.append_assoc]
        · rw [List.drop_append, List.drop_of_length_le short, List.nil_append]

theorem growRaw_ok {raw : Bytes} {maxBytes cap cap' : Nat}
    (run : growRaw maxBytes raw cap c = some (.ok cap', c'))
    (fits : raw.length ≤ cap) (limit : cap ≤ rawMax maxBytes) :
    c'.rest = c.rest ∧ raw.length < cap' ∧ cap' ≤ rawMax maxBytes := by
  unfold growRaw at run
  rw [Prog.ite_apply] at run
  split at run
  · simp only [Prog.bind_ok_iff, Prog.require_ok_iff, Prog.pure_apply, Option.some.injEq, Prod.mk.injEq,
      Except.ok.injEq] at run
    obtain ⟨_, _, ⟨positive, rfl⟩, _, _, granted, rfl, rfl⟩ := run
    exact ⟨allocate_ok granted, by omega, by omega⟩
  · cases run
    exact ⟨rfl, by omega, limit⟩

theorem chunkedDecode_ok {raw body : Bytes} {maxBytes : Nat}
    (run : chunkedDecode maxBytes raw c = some (.ok body, c')) :
    decodeChunks raw = .ok body ∧ body.length ≤ maxBytes ∧ c'.rest = c.rest := by
  simp only [chunkedDecode, Prog.bind_ok_iff, Prog.require_ok_iff, Prog.callMap_ok_iff, Prod.mk.injEq,
    Prog.pure_apply, Option.some.injEq, Except.ok.injEq] at run
  obtain ⟨_, _, ⟨-, rfl⟩, _, _, granted, _, _, ⟨decoded, rfl⟩, _, _, ⟨short, rfl⟩, rfl, rfl⟩ := run
  exact ⟨decoded, short, allocate_ok granted⟩

/-- A chunked body was received up to a point where it is complete. -/
theorem readChunkedLoop_ok {maxBytes fuel cap size : Nat} {raw body : Bytes} {scan : ChunkScan}
    (continues : scan.Continues raw maxBytes) (fits : raw.length ≤ cap) (limit : cap ≤ rawMax maxBytes)
    (run : readChunkedLoop maxBytes fuel raw cap scan c = some (.ok (body, size), c')) :
    ∃ raw' scan', raw' ++ c'.rest = raw ++ c.rest ∧ raw'.length ≤ rawMax maxBytes ∧
      httpChunkedComplete raw' (.start maxBytes) = (.complete, scan') ∧ scan'.pos = size ∧
      decodeChunks raw' = .ok body ∧ body.length ≤ maxBytes := by
  induction fuel generalizing raw cap scan c with
  | zero => cases run
  | succ fuel ih =>
      cases turned : httpChunkedComplete raw scan with
      | mk verdict next =>
          simp only [readChunkedLoop, turned] at run
          cases verdict with
          | malformed => cases run
          | complete =>
              simp only [Prog.bind_ok_iff, Prog.pure_apply, Option.some.injEq, Prod.mk.injEq,
                Except.ok.injEq] at run
              obtain ⟨_, _, done, ⟨rfl, rfl⟩, rfl⟩ := run
              obtain ⟨decoded, short, rest⟩ := chunkedDecode_ok done
              have whole := (continues.verdict turned).2 (by decide) []
              rw [List.append_nil] at whole
              exact ⟨raw, next, by rw [rest], by omega, whole, rfl, decoded, short⟩
          | more =>
              simp only [Prog.bind_ok_iff] at run
              obtain ⟨cap', c₁, grown, data, c₂, received, run⟩ := run
              obtain ⟨kept, room, limit⟩ := growRaw_ok grown fits limit
              obtain ⟨arrived, short, -, -⟩ := recvSome_ok received
              have within : (raw ++ data).length ≤ cap' := by
                rw [List.length_append]
                omega
              obtain ⟨raw', scan', stream, facts⟩ :=
                ih (((continues.verdict turned).1 rfl).append data) within limit run
              refine ⟨raw', scan', ?_, facts⟩
              rw [stream, List.append_assoc, ← arrived, kept]

theorem readChunked_ok {bodyHave body : Bytes} {maxBytes size : Nat}
    (run : readChunked maxBytes bodyHave c = some (.ok (body, size), c')) :
    ∃ raw scan, raw ++ c'.rest = bodyHave ++ c.rest ∧ raw.length ≤ rawMax maxBytes ∧
      httpChunkedComplete raw (.start maxBytes) = (.complete, scan) ∧ scan.pos = size ∧
      decodeChunks raw = .ok body ∧ body.length ≤ maxBytes := by
  simp only [readChunked, Prog.bind_ok_iff, Prog.require_ok_iff, Prog.ite_apply] at run
  obtain ⟨_, _, ⟨limit, rfl⟩, run⟩ := run
  split at run
  · exact readChunkedLoop_ok (.start _ _) (Nat.le_refl _) limit run
  · simp only [Prog.bind_ok_iff] at run
    obtain ⟨_, c₁, granted, run⟩ := run
    rw [← allocate_ok granted]
    exact readChunkedLoop_ok (.start _ _) (Nat.le_refl _) limit run

/-- The body is what follows the header block, `later`, by its length or as chunks. -/
def BodyFollows (framing : ReqFraming) (later body : Bytes) : Prop :=
  if framing.chunked then decodeChunks later = .ok body
  else framing.contentLength ≤ later.length ∧ body = later.take framing.contentLength

theorem readBody_follows {framing : ReqFraming} {bodyHave body : Bytes} {size : Nat}
    (run : readBody framing bodyHave c = some (.ok (body, size), c')) :
    BodyFollows framing (bodyHave ++ c.rest) body := by
  unfold readBody at run
  simp only [Prog.ite_apply] at run
  unfold BodyFollows
  split at run
  · rename_i chunked
    obtain ⟨raw, _, stream, -, -, -, decoded, -⟩ := readChunked_ok run
    rw [if_pos chunked, ← stream]
    exact decodeChunks_append _ decoded
  · rename_i plain
    rw [if_neg plain]
    split at run
    · rename_i none
      cases run
      simp [none]
    · simp only [Prog.bind_ok_iff, Prog.require_ok_iff, Prog.pure_apply, Option.some.injEq,
        Prod.mk.injEq, Except.ok.injEq] at run
      obtain ⟨_, _, ⟨-, rfl⟩, _, c₁, granted, _, _, received, ⟨rfl, rfl⟩, rfl⟩ := run
      obtain ⟨within, rfl, -⟩ := recvLeft_ok (Nat.le_refl _) received
      rw [allocate_ok granted] at within ⊢
      rw [List.length_take] at within ⊢
      refine ⟨by rw [List.length_append]; omega, ?_⟩
      rw [List.take_append]
      congr 2
      omega

/-! ## Requests -/

/-- The steps of a request that was read. -/
structure ReadParts (cap : Nat) (admits : RequestLine → Bool) (authorizes : Bool) (c : Conn)
    (req : ServerRequest) (trace : ReadTrace) (c' : Conn) : Prop where
  steps : ∃ c₁ c₂ line p request st rest,
    receiveHead cap cap [] c = some (.ok trace.buffer, c₁) ∧
    readLine trace.buffer = some (line, p) ∧ parseRequestLine line = some request ∧
    admits request = true ∧
    headerLoop (headerLine authorizes) (p.length + 1) p ⟨framingInit request.version, none⟩ c₁ =
      some (.ok (st, trace.lines, rest), c₂) ∧
    readBody trace.framing rest c₂ = some (.ok (req.body, trace.bodySize), c') ∧
    st.framing = trace.framing ∧ trace.bodyStart = trace.buffer.length - rest.length ∧
    req = ⟨request.method, request.target, st.authHeader, framingClose st.framing, req.body⟩

theorem readRequestIn_parts {cap : Nat} {admits : RequestLine → Bool} {authorizes : Bool}
    {req : ServerRequest} {trace : ReadTrace}
    (run : readRequestIn cap admits authorizes c = some (.ok (req, trace), c')) :
    ReadParts cap admits authorizes c req trace c' := by
  simp only [readRequestIn, Prog.bind_ok_iff] at run
  obtain ⟨buf, c₁, received, run⟩ := run
  cases read : readLine buf with
  | none => simp [read] at run
  | some found =>
      obtain ⟨line, p⟩ := found
      cases parsed : parseRequestLine line with
      | none => simp [read, parsed] at run
      | some request =>
          simp only [read, parsed, Prog.bind_ok_iff, Prog.require_ok_iff, Prog.pure_apply,
            Option.some.injEq, Prod.mk.injEq, Except.ok.injEq] at run
          obtain ⟨_, _, ⟨admitted, rfl⟩, ⟨st, lines, rest⟩, c₂, headers, ⟨body, size⟩, _, bodied,
            ⟨rfl, rfl⟩, rfl⟩ := run
          exact ⟨c₁, c₂, line, p, request, st, rest, received, read, parsed, admitted, headers, bodied,
            rfl, rfl, rfl⟩

/-- The blank line was received, the lines before it are the request line and those examined, and the
body is what follows it. -/
def HeaderComplete (stream : Bytes) (req : ServerRequest) (trace : ReadTrace) : Prop :=
  ∃ block later line, strstr crlfCrlf stream = some (block, later) ∧
    block ++ crlfCrlf <+: trace.buffer ∧ Lines (block ++ [13, 10]) (line :: trace.lines) ∧
    trace.bodyStart = block.length + 4 ∧ BodyFollows trace.framing later req.body

/-- The blank line lies within the first `cap` bytes, and no line between the request line and it is
empty when lines are split at LF. -/
def EndsInCrlf (cap : Nat) (stream : Bytes) : Prop :=
  ∃ block later line lines, strstr crlfCrlf stream = some (block, later) ∧ block.length + 4 ≤ cap ∧
    Lines (block ++ [13, 10]) (line :: lines) ∧ ∀ line ∈ lines, line ≠ []

/-- A blank line within the capacity was received. -/
theorem receiveHead_blank {cap : Nat} {buf block later : Bytes}
    (run : receiveHead cap cap [] c = some (.ok buf, c'))
    (blank : strstr crlfCrlf c.rest = some (block, later)) (fits : block.length + 4 ≤ cap) :
    ∃ more, buf = block ++ crlfCrlf ++ more ∧ more ++ c'.rest = later := by
  obtain ⟨-, stream, stops⟩ := receiveHead_ok (Nat.zero_le _) (Nat.sub_le _ _) run
  rw [List.nil_append] at stream
  have whole := strstr_eq_append blank
  have long : (block ++ crlfCrlf).length ≤ buf.length := by
    rw [List.length_append]
    rcases stops with found | full
    · obtain ⟨⟨before, after⟩, found⟩ := Option.isSome_iff_exists.mp found
      have text : cString buf <+: c.rest := by
        rw [← stream]
        exact (List.takeWhile_prefix _).trans (List.prefix_append _ _)
      obtain ⟨more, rest⟩ := text
      have again := strstr_append more found
      rw [rest, blank] at again
      cases again
      have size := congrArg List.length (strstr_eq_append found)
      have shorter := (List.takeWhile_prefix (p := (· != 0)) (l := buf)).length_le
      simp only [List.length_append] at size
      change (cString buf).length ≤ buf.length at shorter
      omega
    · have size : crlfCrlf.length = 4 := rfl
      omega
  have front : block ++ crlfCrlf <+: buf := by
    refine List.prefix_of_prefix_length_le ?_ (List.prefix_append buf c'.rest) long
    rw [stream, whole]
    exact List.prefix_append _ _
  obtain ⟨more, rfl⟩ := front
  refine ⟨more, rfl, ?_⟩
  rw [whole, List.append_assoc] at stream
  exact List.append_cancel_left stream

theorem readRequestIn_complete {cap : Nat} {admits : RequestLine → Bool} {authorizes : Bool}
    {req : ServerRequest} {trace : ReadTrace} (parts : ReadParts cap admits authorizes c req trace c') :
    HeaderComplete c.rest req trace ↔ EndsInCrlf cap c.rest := by
  obtain ⟨c₁, c₂, line, p, request, st, rest, received, read, -, -, headers, bodied, -, start, -⟩ :=
    parts.steps
  obtain ⟨filled, text, tail, split, front, ends⟩ := headerLoop_lines (Nat.lt_succ_self _) headers
  constructor
  · rintro ⟨block, later, first, blank, ⟨more, whole⟩, lines, -, -⟩
    obtain ⟨short, -, -⟩ := receiveHead_ok (Nat.zero_le _) (Nat.sub_le _ _) received
    refine ⟨block, later, first, trace.lines, blank, ?_, lines, filled⟩
    rw [← whole] at short
    simp only [List.length_append] at short
    have size : crlfCrlf.length = 4 := rfl
    omega
  · rintro ⟨block, later, first, lines, blank, fits, front', filled'⟩
    obtain ⟨more, buffer, unread⟩ := receiveHead_blank received blank fits
    have shape : trace.buffer = block ++ [13, 10] ++ (13 :: 10 :: more) := by simp [buffer, crlfCrlf]
    obtain ⟨after, read', others⟩ := front'.uncons
    have same := readLine_append (13 :: 10 :: more) read'
    rw [← shape, read] at same
    obtain ⟨rfl, rest'⟩ := Prod.mk.inj (Option.some.inj same)
    have stops : NoHeader tail := ends.imp And.left fun empty => ⟨rest, empty⟩
    obtain ⟨rfl, rfl⟩ := Lines.unique front others filled filled' stops
      (.inr ⟨more, readLine_crlf more⟩) (split.symm.trans rest')
    obtain rfl : rest = more := by
      rcases ends with ⟨none, -⟩ | found
      · rw [readLine_crlf] at none
        cases none
      · rw [readLine_crlf] at found
        cases found
        rfl
    refine ⟨block, later, line, blank, ⟨rest, buffer.symm⟩, .cons read' others, ?_, ?_⟩
    · rw [start, buffer]
      simp only [List.length_append]
      have size : crlfCrlf.length = 4 := rfl
      omega
    · have follows := readBody_follows bodied
      rwa [headerLoop_rest _ _ _ _ _ _ _ headers, unread] at follows

/-- How many bytes the header buffer takes. -/
def headCap : Protocol → Nat
  | .est => httpReqBufSz - 1
  | .scep => httpReqBufSz + httpQuerySz - 1

theorem readRequest_parts {protocol : Protocol} {req : ServerRequest} {trace : ReadTrace}
    (run : readRequest protocol c = some (.ok (req, trace), c')) :
    ∃ admits authorizes c₀, c₀.rest = c.rest ∧
      ReadParts (headCap protocol) admits authorizes c₀ req trace c' := by
  cases protocol with
  | est => exact ⟨_, _, c, rfl, readRequestIn_parts run⟩
  | scep =>
      simp only [readRequest, scepReadRequest, Prog.bind_ok_iff] at run
      obtain ⟨_, c₀, granted, run⟩ := run
      exact ⟨_, _, c₀, allocate_ok granted, readRequestIn_parts run⟩

theorem parseRequestLine_target {line : Bytes} {request : RequestLine}
    (parsed : parseRequestLine line = some request) : 32 ∉ request.target ∧ request.target ⊆ line := by
  unfold parseRequestLine at parsed
  split at parsed
  · cases parsed
  · rename_i first after cut
    split at parsed
    · cases parsed
    · split at parsed
      · cases parsed
      · cases parsed
        have behind : after ⊆ line := by
          have whole := (List.dropWhile_suffix (l := line) (· != 32)).subset
          rw [cut] at whole
          exact fun c inside => whole (List.mem_cons_of_mem _ inside)
        exact ⟨fun inside => absurd (List.mem_takeWhile_imp inside) (by decide),
          List.Subset.trans (List.takeWhile_prefix (· != 32)).subset behind⟩

/-- The target has no blank and no LF, and no examined line has a LF. -/
theorem readRequest_target {protocol : Protocol} {req : ServerRequest} {trace : ReadTrace}
    (run : readRequest protocol c = some (.ok (req, trace), c')) :
    (32 ∉ req.target ∧ 10 ∉ req.target) ∧ ∀ line ∈ trace.lines, 10 ∉ line := by
  obtain ⟨admits, authorizes, c₀, -, parts⟩ := readRequest_parts run
  obtain ⟨c₁, c₂, line, p, request, st, rest, -, read, parsed, -, headers, -, -, -, whole⟩ := parts.steps
  obtain ⟨-, text, tail, -, front, -⟩ := headerLoop_lines (Nat.lt_succ_self _) headers
  obtain ⟨solid, inside⟩ := parseRequestLine_target parsed
  rw [whole]
  exact ⟨⟨solid, fun feed => readLine_unbroken read (inside feed)⟩, front.unbroken⟩

/-- A request that was read is complete exactly if its header block ends in CRLFCRLF within the buffer
and has no empty line before. -/
theorem readRequest_complete_iff {protocol : Protocol} {req : ServerRequest} {trace : ReadTrace}
    (run : readRequest protocol c = some (.ok (req, trace), c')) :
    HeaderComplete c.rest req trace ↔ EndsInCrlf (headCap protocol) c.rest := by
  obtain ⟨_, _, c₀, same, parts⟩ := readRequest_parts run
  rw [← same]
  exact readRequestIn_complete parts

/-- A POST with its body. -/
def examplePostBytes : Bytes := ascii "POST /est HTTP/1.1\r\nContent-Length: 2\r\n\r\nhi"

/-- What was read of a stream that arrives at once: the body, and where it begins. -/
def readAtOnce (protocol : Protocol) (stream : Bytes) : Option (Bytes × Nat) :=
  match readRequest protocol ⟨stream, [], []⟩ with
  | some (.ok (req, trace), _) => some (req.body, trace.bodyStart)
  | _ => none

theorem readAtOnce_eq {protocol : Protocol} {stream body : Bytes} {start : Nat}
    (read : readAtOnce protocol stream = some (body, start)) :
    ∃ req trace c', readRequest protocol ⟨stream, [], []⟩ = some (.ok (req, trace), c') ∧
      req.body = body ∧ trace.bodyStart = start := by
  unfold readAtOnce at read
  split at read
  · rename_i req trace c' ran
    cases read
    exact ⟨req, trace, c', ran, rfl, rfl⟩
  · cases read

theorem readRequest_complete_post :
    ∃ req trace c', readRequest .est ⟨examplePostBytes, [], []⟩ = some (.ok (req, trace), c') ∧
      req.body = ascii "hi" ∧ (HeaderComplete examplePostBytes req trace ↔
        EndsInCrlf (headCap .est) examplePostBytes) := by
  have read : readAtOnce .est examplePostBytes = some (ascii "hi", 41) := by decide +kernel
  obtain ⟨req, trace, c', ran, body, -⟩ := readAtOnce_eq read
  exact ⟨req, trace, c', ran, body, readRequest_complete_iff ran⟩

/-- An empty line that ends in LF alone, before the last header line. -/
def bareLfBytes : Bytes := ascii "POST /est HTTP/1.1\n\nContent-Length: 2\r\n\r\nhi"

/-- A header line that does not fit the buffer, before the last one. -/
def longHeaderBytes : Bytes :=
  ascii "POST /est HTTP/1.1\r\nX: " ++ List.replicate 2048 97 ++ ascii "\r\nContent-Length: 2\r\n\r\nhi"

/-- Both are accepted without a body, which is said to begin before the last header lines. -/
theorem readRequest_incomplete :
    (∃ req trace c', readRequest .est ⟨bareLfBytes, [], []⟩ = some (.ok (req, trace), c') ∧
      req.body = [] ∧ trace.bodyStart = 20 ∧ ¬HeaderComplete bareLfBytes req trace) ∧
    ∃ req trace c', readRequest .est ⟨longHeaderBytes, [], []⟩ = some (.ok (req, trace), c') ∧
      req.body = [] ∧ trace.bodyStart = 20 ∧ ¬HeaderComplete longHeaderBytes req trace := by
  have late {stream : Bytes} {req : ServerRequest} {trace : ReadTrace} {blank : Nat}
      (found : (strstr crlfCrlf stream).map (·.1.length) = some blank)
      (start : trace.bodyStart ≠ blank + 4) : ¬HeaderComplete stream req trace := by
    rintro ⟨block, later, _, there, -, -, same, -⟩
    rw [there, Option.map_some, Option.some.injEq] at found
    exact start (found ▸ same)
  constructor
  · have read : readAtOnce .est bareLfBytes = some ([], 20) := by decide +kernel
    obtain ⟨req, trace, c', ran, body, start⟩ := readAtOnce_eq read
    have blank : (strstr crlfCrlf bareLfBytes).map (·.1.length) = some 37 := by decide +kernel
    exact ⟨req, trace, c', ran, body, start, late blank (by simp [start])⟩
  · have read : readAtOnce .est longHeaderBytes = some ([], 20) := by decide +kernel
    obtain ⟨req, trace, c', ran, body, start⟩ := readAtOnce_eq read
    have blank : (strstr crlfCrlf longHeaderBytes).map (·.1.length) = some 2090 := by decide +kernel
    exact ⟨req, trace, c', ran, body, start, late blank (by simp [start])⟩

end WolfCert.Server
