import WolfCert.Http.ChunkedScan

/-!
# Decoding in place

The decoder writes below the bytes it has still to read, so it gives what decoding an untouched copy
gives.
-/

namespace WolfCert.Http

open WolfCert.CLib

/-- What a code and the payload it came with amount to. -/
def decodeResult (rc : Rc) (out : Bytes) : Except Rc Bytes :=
  if rc = .ok then .ok out else .error rc

/-- The decoder over a source that nothing writes to; `out` is the payload so far. -/
def decodeChunksLoop (raw : Bytes) : Nat → Nat → Bytes → Except Rc Bytes
  | 0, _, _ => .error .errProtocol
  | fuel + 1, p, out =>
      let line := findCrlf raw p
      if line.found = false then .error .errProtocol
      else
        match parseChunkSize raw p line.index with
        | none => .error .errProtocol
        | some clen =>
            let p := line.index + 2
            if clen = 0 then decodeResult (checkTrailers (raw.drop p)) out
            else if p + 2 > raw.length ∨ clen > raw.length - p - 2 ∨
                raw.getD (p + clen) 0 ≠ 13 ∨ raw.getD (p + clen + 1) 0 ≠ 10 then
              .error .errProtocol
            else decodeChunksLoop raw fuel (p + clen + 2) (out ++ (raw.drop p).take clen)

def decodeChunks (raw : Bytes) : Except Rc Bytes :=
  decodeChunksLoop raw (raw.length + 1) 0 []

/-- What an in-place decoding left at `dst`. -/
def Decoded.payload (done : Decoded) (dst : Nat) : Except Rc Bytes :=
  decodeResult done.rc ((done.memory.drop dst).take done.outLen)

/-- Two sources of one length that agree from `p` on. -/
structure AgreeFrom (p : Nat) (raw raw' : Bytes) : Prop where
  length : raw.length = raw'.length
  rest : raw.drop p = raw'.drop p

theorem AgreeFrom.drop {p k : Nat} {raw raw' : Bytes} (agree : AgreeFrom p raw raw') (later : p ≤ k) :
    raw.drop k = raw'.drop k := by
  have split : p + (k - p) = k := by omega
  rw [← split, ← List.drop_drop, agree.rest, List.drop_drop]

theorem AgreeFrom.findCrlf {p : Nat} {raw raw' : Bytes} (agree : AgreeFrom p raw raw') :
    findCrlf raw p = findCrlf raw' p := by
  simp only [Http.findCrlf, agree.rest, agree.length]

theorem AgreeFrom.parseChunkSize {p he : Nat} {raw raw' : Bytes} (agree : AgreeFrom p raw raw') :
    parseChunkSize raw p he = parseChunkSize raw' p he := by
  simp only [Http.parseChunkSize, List.drop_take, agree.rest]

theorem AgreeFrom.getD {p k : Nat} {raw raw' : Bytes} (agree : AgreeFrom p raw raw') (later : p ≤ k) :
    raw.getD k 0 = raw'.getD k 0 := by
  have at_ : raw[k]? = raw'[k]? := by
    rw [← Nat.add_zero k, ← List.getElem?_drop, ← List.getElem?_drop, agree.drop later]
  simp only [List.getD_eq_getElem?_getD, at_]

/-- The in-place decoder at one of its turns: the unread source is intact, the payload so far lies at
the destination, and that ends no later than the unread source begins. -/
structure InPlace (original memory : Bytes) (dst src len p : Nat) (out : Bytes) : Prop where
  length : memory.length = original.length
  inside : src + len ≤ original.length
  position : p ≤ len
  unread : memory.drop (src + p) = original.drop (src + p)
  written : (memory.drop dst).take out.length = out
  behind : dst + out.length ≤ src + p

theorem InPlace.intact {original memory : Bytes} {dst src len p k : Nat} {out : Bytes}
    (state : InPlace original memory dst src len p out) (later : p ≤ k) :
    memory.drop (src + k) = original.drop (src + k) := by
  have split : src + k = src + p + (k - p) := by omega
  rw [split, ← List.drop_drop, state.unread, List.drop_drop]

theorem InPlace.agree {original memory : Bytes} {dst src len p : Nat} {out : Bytes}
    (state : InPlace original memory dst src len p out) :
    AgreeFrom p ((memory.drop src).take len) ((original.drop src).take len) where
  length := by simp only [List.length_take, List.length_drop, state.length]
  rest := by
    rw [List.drop_take, List.drop_take, List.drop_drop, List.drop_drop, state.unread]

/-- Copying a chunk down keeps the invariant. -/
theorem InPlace.copy {original memory : Bytes} {dst src len p q clen : Nat} {out : Bytes}
    (state : InPlace original memory dst src len p out) (forward : p ≤ q)
    (fits : q + clen + 2 ≤ len) :
    InPlace original (memmove memory (dst + out.length) (src + q) clen) dst src len (q + clen + 2)
      (out ++ (((original.drop src).take len).drop q).take clen) := by
  have inside := state.inside
  have behind := state.behind
  have length := state.length
  have source : src + q + clen ≤ memory.length := by omega
  have target : dst + out.length + clen ≤ memory.length := by omega
  have unread : memory.drop (src + q) = original.drop (src + q) := state.intact forward
  have chunk : (((original.drop src).take len).drop q).take clen = (memory.drop (src + q)).take clen := by
    rw [List.drop_take, List.drop_drop, List.take_take, Nat.min_eq_left (by omega), unread]
  have size : ((memory.drop (src + q)).take clen).length = clen := by
    simp only [List.length_take, List.length_drop]
    omega
  refine ⟨?_, inside, fits, ?_, ?_, ?_⟩
  · rw [memmove_length source target, length]
  · rw [memmove_drop source target (by omega)]
    exact state.intact (by omega)
  · have room : dst ≤ (memory.take (dst + out.length)).length := by
      simp only [List.length_take]
      omega
    have whole : out.length + clen = dst + out.length + clen - dst := by omega
    rw [chunk, List.length_append, size, whole, ← List.drop_take, memmove_take source target,
      List.drop_append_of_le_length room, List.drop_take, Nat.add_sub_cancel_left, state.written]
  · rw [chunk, List.length_append, size]
    omega

/-- A decoding inside `original` that gave `result` at `dst`. -/
structure Decoded.Gives (done : Decoded) (original : Bytes) (dst : Nat) (result : Except Rc Bytes) :
    Prop where
  payload : done.payload dst = result
  length : done.memory.length = original.length
  inside : dst + done.outLen ≤ original.length

theorem InPlace.gives {original memory : Bytes} {dst src len p outLen : Nat} {out : Bytes} {rc : Rc}
    (state : InPlace original memory dst src len p out)
    (size : outLen = out.length ∨ rc ≠ .ok ∧ outLen = 0) :
    Decoded.Gives { rc, memory, outLen } original dst (decodeResult rc out) := by
  have inside := state.inside
  have position := state.position
  have behind := state.behind
  refine ⟨?_, state.length, by dsimp only; omega⟩
  rcases size with rfl | ⟨failed, rfl⟩
  · exact congrArg (decodeResult rc) state.written
  · simp only [Decoded.payload, decodeResult, if_neg failed]

/-- What the turns of the decoder need of the memory they run in and keep of it. -/
structure DecodesFrom (original : Bytes) (dst src len : Nat) (state : Bytes → Nat → Bytes → Prop) :
    Prop where
  inside : src + len ≤ original.length
  agree : ∀ {memory p out}, state memory p out →
    AgreeFrom p ((memory.drop src).take len) ((original.drop src).take len)
  copy : ∀ {memory p q clen out}, state memory p out → p ≤ q → q + clen + 2 ≤ len →
    state (memmove memory (dst + out.length) (src + q) clen) (q + clen + 2)
      (out ++ (((original.drop src).take len).drop q).take clen)
  gives : ∀ {memory p out outLen rc}, state memory p out →
    (outLen = out.length ∨ rc ≠ .ok ∧ outLen = 0) →
    Decoded.Gives { rc, memory, outLen } original dst (decodeResult rc out)

theorem DecodesFrom.loop {original : Bytes} {dst src len : Nat} {state : Bytes → Nat → Bytes → Prop}
    (decodes : DecodesFrom original dst src len state) :
    ∀ (fuel : Nat) {memory : Bytes} {p : Nat} {out : Bytes}, state memory p out →
      (chunkedDecodeLoop dst src len fuel memory p out.length).Gives original dst
        (decodeChunksLoop ((original.drop src).take len) fuel p out) := by
  intro fuel
  induction fuel with
  | zero =>
      intro memory p out holds
      exact decodes.gives holds (.inl rfl)
  | succ fuel step =>
      intro memory p out holds
      have agree := decodes.agree holds
      have size : ((original.drop src).take len).length = len := by
        have inside := decodes.inside
        simp only [List.length_take, List.length_drop]
        omega
      simp only [chunkedDecodeLoop, decodeChunksLoop, agree.findCrlf, agree.parseChunkSize, size]
      generalize lineEq : findCrlf ((original.drop src).take len) p = line
      have later : p ≤ line.index := lineEq ▸ findCrlf_ge ..
      have refused : Decoded.Gives { rc := .errProtocol, memory, outLen := 0 } original dst
          (.error .errProtocol) := decodes.gives holds (.inr ⟨by decide, rfl⟩)
      by_cases found : line.found = false
      · rw [if_pos found, if_pos found]
        exact refused
      · rw [if_neg found, if_neg found]
        cases parsed : parseChunkSize ((original.drop src).take len) p line.index with
        | none => exact refused
        | some clen =>
            dsimp only
            by_cases last : clen = 0
            · rw [if_pos last, if_pos last, agree.drop (by omega)]
              exact decodes.gives holds (.inl rfl)
            · rw [if_neg last, if_neg last, agree.getD (by omega), agree.getD (by omega)]
              by_cases bad : line.index + 2 + 2 > len ∨ clen > len - (line.index + 2) - 2 ∨
                  ((original.drop src).take len).getD (line.index + 2 + clen) 0 ≠ 13 ∨
                  ((original.drop src).take len).getD (line.index + 2 + clen + 1) 0 ≠ 10
              · rw [if_pos bad, if_pos bad]
                exact refused
              · rw [if_neg bad, if_neg bad]
                have fits : line.index + 2 + clen + 2 ≤ len := by omega
                have copied := decodes.copy (q := line.index + 2) holds (by omega) fits
                have chunk : ((((original.drop src).take len).drop (line.index + 2)).take clen).length =
                    clen := by
                  simp only [List.length_take, List.length_drop] at size ⊢
                  omega
                have rest := step copied
                rwa [List.length_append, chunk] at rest

theorem DecodesFrom.gives_copy {memory : Bytes} {dst src len : Nat} {state : Bytes → Nat → Bytes → Prop}
    (decodes : DecodesFrom memory dst src len state) (start : state memory 0 []) :
    (chunkedDecodeInto memory dst src len).Gives memory dst
      (decodeChunks ((memory.drop src).take len)) := by
  have size : ((memory.drop src).take len).length = len := by
    have inside := decodes.inside
    simp only [List.length_take, List.length_drop]
    omega
  rw [chunkedDecodeInto, decodeChunks, size]
  exact decodes.loop (len + 1) start

/-- Decoding a segment in place gives what decoding a copy of it gives. -/
theorem chunkedDecodeInto_gives {memory : Bytes} {dst src len : Nat} (down : dst ≤ src)
    (inside : src + len ≤ memory.length) :
    (chunkedDecodeInto memory dst src len).Gives memory dst
      (decodeChunks ((memory.drop src).take len)) := by
  have decodes : DecodesFrom memory dst src len fun now p out => InPlace memory now dst src len p out :=
    ⟨inside, InPlace.agree, InPlace.copy, InPlace.gives⟩
  exact decodes.gives_copy
    ⟨rfl, inside, Nat.zero_le _, rfl, List.take_zero, by simpa using down⟩

/-- The decoder at one of its turns, writing to a buffer apart from its source. -/
structure Apart (original memory : Bytes) (dst src len p : Nat) (out : Bytes) : Prop where
  length : memory.length = original.length
  inside : src + len ≤ original.length
  room : dst + len ≤ original.length
  apart : dst + len ≤ src ∨ src + len ≤ dst
  source : (memory.drop src).take len = (original.drop src).take len
  written : (memory.drop dst).take out.length = out
  size : out.length ≤ p
  position : p ≤ len

theorem Apart.copy {original memory : Bytes} {dst src len p q clen : Nat} {out : Bytes}
    (state : Apart original memory dst src len p out) (forward : p ≤ q) (fits : q + clen + 2 ≤ len) :
    Apart original (memmove memory (dst + out.length) (src + q) clen) dst src len (q + clen + 2)
      (out ++ (((original.drop src).take len).drop q).take clen) := by
  obtain ⟨length, inside, room, apart, source, written, size, -⟩ := state
  have from_ : src + q + clen ≤ memory.length := by omega
  have to_ : dst + out.length + clen ≤ memory.length := by omega
  have chunk : (((original.drop src).take len).drop q).take clen = (memory.drop (src + q)).take clen := by
    rw [← source, List.drop_take, List.drop_drop, List.take_take, Nat.min_eq_left (by omega)]
  have count : ((memory.drop (src + q)).take clen).length = clen := by
    simp only [List.length_take, List.length_drop]
    omega
  have whole : out.length + clen = dst + out.length + clen - dst := by omega
  refine ⟨?_, inside, room, apart, ?_, ?_, ?_, fits⟩
  · rw [memmove_length from_ to_, length]
  · rw [← source]
    cases apart with
    | inl below => rw [memmove_drop from_ to_ (by omega)]
    | inr above => rw [List.take_drop, List.take_drop, memmove_take_of_le (by omega) (by omega)]
  · have reached : dst ≤ (memory.take (dst + out.length)).length := by
      simp only [List.length_take]
      omega
    rw [chunk, List.length_append, count, whole, ← List.drop_take, memmove_take from_ to_,
      List.drop_append_of_le_length reached, List.drop_take, Nat.add_sub_cancel_left, written]
  · rw [chunk, List.length_append, count]
    omega

theorem Apart.gives {original memory : Bytes} {dst src len p outLen : Nat} {out : Bytes} {rc : Rc}
    (state : Apart original memory dst src len p out)
    (size : outLen = out.length ∨ rc ≠ .ok ∧ outLen = 0) :
    Decoded.Gives { rc, memory, outLen } original dst (decodeResult rc out) := by
  have room := state.room
  have below := Nat.le_trans state.size state.position
  refine ⟨?_, state.length, by dsimp only; omega⟩
  rcases size with rfl | ⟨failed, rfl⟩
  · exact congrArg (decodeResult rc) state.written
  · simp only [Decoded.payload, decodeResult, if_neg failed]

/-- So does decoding it to a separate buffer. -/
theorem chunkedDecodeInto_apart {memory : Bytes} {dst src len : Nat} (inside : src + len ≤ memory.length)
    (room : dst + len ≤ memory.length) (apart : dst + len ≤ src ∨ src + len ≤ dst) :
    (chunkedDecodeInto memory dst src len).Gives memory dst
      (decodeChunks ((memory.drop src).take len)) := by
  have decodes : DecodesFrom memory dst src len fun now p out => Apart memory now dst src len p out :=
    ⟨inside, fun state => ⟨by rw [state.source], by rw [state.source]⟩, Apart.copy, Apart.gives⟩
  exact decodes.gives_copy
    ⟨rfl, inside, room, apart, rfl, List.take_zero, Nat.le_refl _, Nat.zero_le _⟩

/-! ## The code of a failed decoding -/

theorem checkTrailersLoop_code (fuel : Nat) :
    ∀ (raw : Bytes) (start : Bool), checkTrailersLoop fuel raw start = .ok ∨
      checkTrailersLoop fuel raw start = .errProtocol := by
  induction fuel with
  | zero => exact fun _ _ => .inr rfl
  | succ fuel ih =>
      intro raw start
      simp only [checkTrailersLoop]
      split
      · exact .inr rfl
      · split
        · exact .inr rfl
        · split
          · exact .inl rfl
          · split
            · exact ih _ _
            · split
              · exact .inr rfl
              · exact .inr rfl
              · exact ih _ _

theorem decodeChunksLoop_code {raw : Bytes} (fuel : Nat) {p : Nat} {out : Bytes} {rc : Rc}
    (failed : decodeChunksLoop raw fuel p out = .error rc) : rc = .errProtocol := by
  induction fuel generalizing p out with
  | zero =>
      cases failed
      rfl
  | succ fuel ih =>
      simp only [decodeChunksLoop] at failed
      split at failed
      · cases failed
        rfl
      · split at failed
        · cases failed
          rfl
        · split at failed
          · unfold decodeResult at failed
            split at failed
            · cases failed
            · rename_i bad
              cases failed
              exact (checkTrailersLoop_code _ _ _).resolve_left bad
          · split at failed
            · cases failed
              rfl
            · exact ih failed

theorem decodeChunks_code {raw : Bytes} {rc : Rc} (failed : decodeChunks raw = .error rc) :
    rc = .errProtocol :=
  decodeChunksLoop_code _ failed

theorem checkTrailersLoop_append (more : Bytes) (fuel : Nat) :
    ∀ {raw : Bytes} {start : Bool} {fuel' : Nat}, fuel ≤ fuel' →
      checkTrailersLoop fuel raw start = .ok → checkTrailersLoop fuel' (raw ++ more) start = .ok := by
  induction fuel with
  | zero =>
      intro raw start fuel' _ passed
      cases passed
  | succ fuel ih =>
      intro raw start fuel' enough passed
      obtain ⟨fuel', rfl⟩ : ∃ k, fuel' = k + 1 := ⟨fuel' - 1, by omega⟩
      have enough : fuel ≤ fuel' := by omega
      simp only [checkTrailersLoop] at passed ⊢
      split at passed
      · cases passed
      · split at passed
        · cases passed
        · rename_i nonempty inside
          have inside : crlfOffset raw + 1 < raw.length := by omega
          have offset := crlfOffset_append more inside
          have line : (raw ++ more).take (crlfOffset raw) = raw.take (crlfOffset raw) :=
            List.take_append_of_le_length (by omega)
          have rest : (raw ++ more).drop (crlfOffset raw + 2) = raw.drop (crlfOffset raw + 2) ++ more :=
            List.drop_append_of_le_length (by omega)
          have longer : ¬crlfOffset raw + 1 ≥ (raw ++ more).length := by
            rw [List.length_append]
            omega
          rw [if_neg (by simp [nonempty]), offset, if_neg longer, line, rest]
          split at passed
          · rw [if_pos ‹_›]
          · rw [if_neg ‹_›]
            split at passed
            · rw [if_pos ‹_›]
              exact ih enough passed
            · rw [if_neg ‹_›]
              split at passed
              · cases passed
              · cases passed
              · exact ih enough passed

theorem checkTrailers_append {raw : Bytes} (more : Bytes) (passed : checkTrailers raw = .ok) :
    checkTrailers (raw ++ more) = .ok :=
  checkTrailersLoop_append more _ (by rw [List.length_append]; omega) passed

theorem decodeChunksLoop_append {raw : Bytes} (more : Bytes) (fuel : Nat) :
    ∀ {fuel' p : Nat} {out body : Bytes}, fuel ≤ fuel' →
      decodeChunksLoop raw fuel p out = .ok body →
      decodeChunksLoop (raw ++ more) fuel' p out = .ok body := by
  induction fuel with
  | zero =>
      intro fuel' p out body _ decoded
      cases decoded
  | succ fuel ih =>
      intro fuel' p out body enough decoded
      obtain ⟨fuel', rfl⟩ : ∃ k, fuel' = k + 1 := ⟨fuel' - 1, by omega⟩
      have enough : fuel ≤ fuel' := by omega
      simp only [decodeChunksLoop] at decoded ⊢
      split at decoded
      · cases decoded
      · rename_i missing
        have found : (findCrlf raw p).found = true := by simpa using missing
        have inside := findCrlf_found found
        rw [findCrlf_append more found, if_neg missing,
          parseChunkSize_append more (Nat.le_of_lt (Nat.lt_of_succ_lt inside))]
        split at decoded
        · cases decoded
        · rename_i clen size
          have rest : (raw ++ more).drop ((findCrlf raw p).index + 2) =
              raw.drop ((findCrlf raw p).index + 2) ++ more :=
            List.drop_append_of_le_length (by omega)
          split at decoded
          · rename_i last
            rw [if_pos last, rest]
            unfold decodeResult at decoded
            split at decoded
            · rename_i passed
              cases decoded
              rw [checkTrailers_append more passed]
              rfl
            · cases decoded
          · rename_i chunk
            rw [if_neg chunk]
            split at decoded
            · cases decoded
            · rename_i whole
              simp only [not_or, Nat.not_lt, ne_eq, Decidable.not_not] at whole
              obtain ⟨room, fits, carriage, feed⟩ := whole
              have longer : ¬((findCrlf raw p).index + 2 + 2 > (raw ++ more).length ∨
                  clen > (raw ++ more).length - ((findCrlf raw p).index + 2) - 2 ∨
                  (raw ++ more).getD ((findCrlf raw p).index + 2 + clen) 0 ≠ 13 ∨
                  (raw ++ more).getD ((findCrlf raw p).index + 2 + clen + 1) 0 ≠ 10) := by
                rw [getD_append_left more (by omega), getD_append_left more (by omega),
                  List.length_append]
                simp only [carriage, feed, ne_eq, not_true, or_false]
                omega
              have content : ((raw ++ more).drop ((findCrlf raw p).index + 2)).take clen =
                  (raw.drop ((findCrlf raw p).index + 2)).take clen := by
                rw [rest]
                exact List.take_append_of_le_length (by rw [List.length_drop]; omega)
              rw [if_neg longer, content]
              exact ih enough decoded

/-- The decoder does not look past the end of what it decodes. -/
theorem decodeChunks_append {raw body : Bytes} (more : Bytes) (decoded : decodeChunks raw = .ok body) :
    decodeChunks (raw ++ more) = .ok body :=
  decodeChunksLoop_append more _ (by rw [List.length_append]; omega) decoded

end WolfCert.Http
