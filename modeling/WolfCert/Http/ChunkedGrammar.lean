import WolfCert.Http.ChunkedDecode

/-!
# Chunked messages

The messages of the chunked transfer coding as syntax: chunks, a last chunk of size zero and a trailer
section. The decoder returns exactly their bodies.
-/

namespace WolfCert.Http

open WolfCert.CLib

/-! ## Lines -/

/-- No line end inside. -/
def NoCrlf (line : Bytes) : Prop := ¬[13, 10] <:+: line

instance (line : Bytes) : Decidable (NoCrlf line) := inferInstanceAs (Decidable (¬_))

theorem NoCrlf.tail {a : UInt8} {line : Bytes} (plain : NoCrlf (a :: line)) : NoCrlf line :=
  fun inside => plain (inside.trans (List.suffix_cons a line).isInfix)

theorem crlfOffset_line {line : Bytes} (plain : NoCrlf line) (rest : Bytes) :
    crlfOffset (line ++ 13 :: 10 :: rest) = line.length := by
  induction line with
  | nil => simp [crlfOffset]
  | cons a line ih =>
      have later := ih plain.tail
      cases line with
      | nil => simp [crlfOffset]
      | cons b line =>
          have apart : ¬(a = 13 ∧ b = 10) := by
            rintro ⟨rfl, rfl⟩
            exact plain (List.prefix_append [13, 10] line).isInfix
          simp only [List.cons_append, crlfOffset, if_neg apart, List.length_cons] at later ⊢
          rw [later]

/-- A line end that is found ends the first line. -/
theorem crlfOffset_split {text : Bytes} (found : crlfOffset text + 1 < text.length) :
    ∃ line rest, text = line ++ 13 :: 10 :: rest ∧ NoCrlf line ∧ crlfOffset text = line.length := by
  induction text with
  | nil => simp at found
  | cons a text ih =>
      cases text with
      | nil => simp [crlfOffset] at found
      | cons b text =>
          by_cases here : a = 13 ∧ b = 10
          · obtain ⟨rfl, rfl⟩ := here
            exact ⟨[], text, rfl, by simp [NoCrlf], by simp [crlfOffset]⟩
          · simp only [crlfOffset, if_neg here, List.length_cons] at found ⊢
            obtain ⟨line, rest, shape, plain, size⟩ := ih (by simp only [List.length_cons]; omega)
            refine ⟨a :: line, rest, by rw [shape]; rfl, ?_, by rw [size, List.length_cons]⟩
            rintro ⟨before, after, whole⟩
            cases before with
            | nil =>
                simp only [List.nil_append, List.cons_append, List.cons.injEq] at whole
                obtain ⟨rfl, whole⟩ := whole
                rw [← whole] at shape
                simp only [List.cons_append, List.cons.injEq] at shape
                exact here ⟨rfl, shape.1⟩
            | cons c before =>
                simp only [List.cons_append, List.cons.injEq] at whole
                exact plain ⟨before, after, whole.2⟩

section Lines

variable (front line rest : Bytes)

theorem findCrlf_line (plain : NoCrlf line) :
    findCrlf (front ++ (line ++ 13 :: 10 :: rest)) front.length = ⟨front.length + line.length, true⟩ := by
  simp only [findCrlf, List.drop_left, crlfOffset_line plain, FindCrlf.mk.injEq, true_and,
    decide_eq_true_eq, List.length_append, List.length_cons]
  omega

theorem findCrlf_split {text : Bytes} (found : (findCrlf (front ++ text) front.length).found = true) :
    ∃ line rest, text = line ++ 13 :: 10 :: rest ∧ NoCrlf line := by
  have inside : crlfOffset text + 1 < text.length := by
    simp only [findCrlf, List.drop_left, decide_eq_true_eq, List.length_append] at found
    omega
  obtain ⟨line, rest, shape, plain, -⟩ := crlfOffset_split inside
  exact ⟨line, rest, shape, plain⟩

/-- The size that a chunk line states. -/
def chunkSize (line : Bytes) : Option Nat := chunkSizeLoop line 0 false

theorem parseChunkSize_line :
    parseChunkSize (front ++ (line ++ 13 :: 10 :: rest)) front.length (front.length + line.length) =
      chunkSize line := by
  have cut : ((front ++ (line ++ 13 :: 10 :: rest)).take (front.length + line.length)).drop
      front.length = line := by
    rw [← List.append_assoc, ← List.length_append, List.take_left, List.drop_left]
  rw [parseChunkSize, cut, chunkSize]

end Lines

/-! ## Messages -/

structure Chunk where
  size : Bytes
  payload : Bytes
deriving DecidableEq, Repr

structure ChunkedMessage where
  chunks : List Chunk
  last : Bytes
  trailers : List Bytes
deriving DecidableEq, Repr

structure Chunk.Valid (c : Chunk) : Prop where
  line : NoCrlf c.size
  size : chunkSize c.size = some c.payload.length
  filled : c.payload ≠ []

/-- The lines are lines, the sizes are those of the payloads, and no trailer line is empty. -/
structure ChunkedMessage.Valid (m : ChunkedMessage) : Prop where
  chunks : ∀ c ∈ m.chunks, c.Valid
  lastLine : NoCrlf m.last
  lastSize : chunkSize m.last = some 0
  trailers : ∀ line ∈ m.trailers, NoCrlf line ∧ line ≠ []

def Chunk.render (c : Chunk) : Bytes := c.size ++ 13 :: 10 :: (c.payload ++ [13, 10])

def renderChunks (chunks : List Chunk) : Bytes := chunks.flatMap Chunk.render

/-- The trailer section with its blank line. -/
def renderTrailers (trailers : List Bytes) : Bytes := trailers.flatMap (· ++ [13, 10]) ++ [13, 10]

def ChunkedMessage.render (m : ChunkedMessage) : Bytes :=
  renderChunks m.chunks ++ (m.last ++ 13 :: 10 :: renderTrailers m.trailers)

def chunksBody (chunks : List Chunk) : Bytes := chunks.flatMap Chunk.payload

def ChunkedMessage.body (m : ChunkedMessage) : Bytes := chunksBody m.chunks

/-- A trailer line is a field with a name, or goes on with the field before it. -/
def trailerOk (first : Bool) (line : Bytes) : Bool :=
  (!first && isBlank (charAt line)) ||
    match line.findIdx? (· == 58) with
    | none => false
    | some colon => colon != 0

def trailersOk : Bool → List Bytes → Bool
  | _, [] => true
  | first, line :: lines => trailerOk first line && trailersOk false lines

def ChunkedMessage.TrailersOk (m : ChunkedMessage) : Prop := trailersOk true m.trailers = true

instance (m : ChunkedMessage) : Decidable m.TrailersOk := inferInstanceAs (Decidable (_ = true))

theorem renderTrailers_cons (line : Bytes) (trailers : List Bytes) (rest : Bytes) :
    renderTrailers (line :: trailers) ++ rest = line ++ 13 :: 10 :: (renderTrailers trailers ++ rest) := by
  simp [renderTrailers]

theorem ChunkedMessage.render_cons (c : Chunk) (chunks : List Chunk) (last : Bytes)
    (trailers : List Bytes) (rest : Bytes) :
    (⟨c :: chunks, last, trailers⟩ : ChunkedMessage).render ++ rest =
      c.render ++ ((⟨chunks, last, trailers⟩ : ChunkedMessage).render ++ rest) := by
  simp [ChunkedMessage.render, renderChunks]

/-! ## Spelled sizes -/

def hexValue (digits : Bytes) : Nat := digits.foldl (fun v d => v * 16 + (hexDigit d).getD 0) 0

/-- A size line: hex digits and what follows them. -/
structure SizeText where
  digits : Bytes
  ext : Bytes
deriving DecidableEq, Repr

def SizeText.line (t : SizeText) : Bytes := t.digits ++ t.ext

/-- Digits of either case, with or without leading zeros, and an optional extension. -/
structure SizeText.Spells (t : SizeText) (n : Nat) : Prop where
  filled : t.digits ≠ []
  hex : ∀ d ∈ t.digits, (hexDigit d).isSome = true
  value : hexValue t.digits = n
  ext : t.ext = [] ∨ ∃ blanks tail, t.ext = blanks ++ 59 :: tail ∧ (∀ c ∈ blanks, isBlank c = true) ∧
    NoCrlf tail

theorem NoCrlf.append {front line : Bytes} (clean : 13 ∉ front) (plain : NoCrlf line) :
    NoCrlf (front ++ line) := by
  induction front with
  | nil => exact plain
  | cons a front ih =>
      rintro ⟨before, after, whole⟩
      cases before with
      | nil =>
          simp only [List.nil_append, List.cons_append, List.cons.injEq] at whole
          exact clean (whole.1 ▸ List.mem_cons_self)
      | cons b before =>
          simp only [List.cons_append, List.cons.injEq] at whole
          exact ih (fun inside => clean (List.mem_cons_of_mem _ inside)) ⟨before, after, whole.2⟩

theorem hexDigit_plain {c : UInt8} (digit : (hexDigit c).isSome = true) :
    c ≠ 59 ∧ isBlank c = false ∧ c ≠ 13 := by
  refine ⟨?_, ?_, ?_⟩
  · rintro rfl
    exact absurd digit (by decide)
  · by_contra blank
    simp only [isBlank, Bool.not_eq_false, Bool.or_eq_true, beq_iff_eq] at blank
    rcases blank with rfl | rfl
    · exact absurd digit (by decide)
    · exact absurd digit (by decide)
  · rintro rfl
    exact absurd digit (by decide)

theorem SizeText.Spells.noCrlf {t : SizeText} {n : Nat} (spells : t.Spells n) : NoCrlf t.line := by
  have digits : 13 ∉ t.digits := fun inside => (hexDigit_plain (spells.hex 13 inside)).2.2 rfl
  refine NoCrlf.append digits ?_
  rcases spells.ext with none | ⟨blanks, tail, shape, blank, plain⟩
  · rw [none]
    simp [NoCrlf]
  · have clean : 13 ∉ blanks ++ [59] := by
      intro inside
      cases List.mem_append.mp inside with
      | inl early => exact absurd (blank 13 early) (by decide)
      | inr late => exact absurd (List.mem_singleton.mp late) (by decide)
    rw [shape, ← List.singleton_append, ← List.append_assoc]
    exact NoCrlf.append clean plain

/-- The extension ends the size. -/
theorem chunkSizeLoop_ext {ext : Bytes} (v : Nat)
    (shape : ext = [] ∨ ∃ blanks tail, ext = blanks ++ 59 :: tail ∧ (∀ c ∈ blanks, isBlank c = true) ∧
      NoCrlf tail) : chunkSizeLoop ext v true = some v := by
  rcases shape with rfl | ⟨blanks, tail, rfl, blank, -⟩
  · rfl
  · cases blanks with
    | nil => simp [chunkSizeLoop]
    | cons b blanks =>
        have here := blank b List.mem_cons_self
        have apart : b ≠ 59 := by
          rintro rfl
          exact absurd here (by decide)
        have skipped : (blanks ++ 59 :: tail).dropWhile isBlank = 59 :: tail := by
          rw [List.dropWhile_append_of_pos fun c inside => blank c (List.mem_cons_of_mem _ inside)]
          exact List.dropWhile_cons_of_neg (by decide)
        rw [List.cons_append, chunkSizeLoop, if_neg apart, if_pos (by simpa using here), skipped]
        rfl

theorem hexFold_le (digits : Bytes) (v : Nat) :
    v ≤ digits.foldl (fun v d => v * 16 + (hexDigit d).getD 0) v := by
  induction digits generalizing v with
  | nil => exact Nat.le_refl _
  | cons d digits ih =>
      have later := ih (v * 16 + (hexDigit d).getD 0)
      rw [List.foldl_cons]
      omega

/-- The overflow guard never meets a size below 2^32. -/
theorem chunkSizeLoop_digits {digits ext : Bytes} {v : Nat} {parsed : Bool}
    (hex : ∀ d ∈ digits, (hexDigit d).isSome = true)
    (small : digits.foldl (fun v d => v * 16 + (hexDigit d).getD 0) v < 2 ^ 32)
    (begun : digits ≠ [] ∨ parsed = true)
    (shape : ext = [] ∨ ∃ blanks tail, ext = blanks ++ 59 :: tail ∧ (∀ c ∈ blanks, isBlank c = true) ∧
      NoCrlf tail) :
    chunkSizeLoop (digits ++ ext) v parsed =
      some (digits.foldl (fun v d => v * 16 + (hexDigit d).getD 0) v) := by
  induction digits generalizing v parsed with
  | nil =>
      have parsed : parsed = true := begun.resolve_left fun other => other rfl
      subst parsed
      exact chunkSizeLoop_ext v shape
  | cons d digits ih =>
      have digit := hex d List.mem_cons_self
      obtain ⟨apart, solid, -⟩ := hexDigit_plain digit
      obtain ⟨value, denotes⟩ := Option.isSome_iff_exists.mp digit
      rw [List.foldl_cons, denotes, Option.getD_some] at small ⊢
      have below := hexFold_le digits (v * 16 + value)
      have room : ¬v > 0x0FFFFFFF := by omega
      rw [List.cons_append, chunkSizeLoop, if_neg apart, solid, Bool.and_false, if_neg (by simp), denotes]
      dsimp only
      rw [if_neg room]
      exact ih (fun d inside => hex d (List.mem_cons_of_mem _ inside)) small (.inr rfl)

theorem SizeText.Spells.chunkSize {t : SizeText} {n : Nat} (spells : t.Spells n) (small : n < 2 ^ 32) :
    chunkSize t.line = some n := by
  have value := spells.value
  rw [Http.chunkSize, SizeText.line, chunkSizeLoop_digits spells.hex (by rw [← value] at small; exact small)
    (.inl spells.filled) spells.ext]
  exact congrArg some value

/-! ## The decoder -/

theorem checkTrailersLoop_line {line : Bytes} (plain : NoCrlf line) (filled : line ≠ []) (rest : Bytes)
    (fuel : Nat) (first : Bool) :
    checkTrailersLoop (fuel + 1) (line ++ 13 :: 10 :: rest) first =
      if trailerOk first line = true then checkTrailersLoop fuel rest false else .errProtocol := by
  have size : ¬line.length + 1 ≥ (line ++ 13 :: 10 :: rest).length := by
    simp only [List.length_append, List.length_cons]
    omega
  have behind : (line ++ 13 :: 10 :: rest).drop (line.length + 2) = rest := by
    rw [← List.drop_drop, List.drop_left]
    rfl
  have count : line.length ≠ 0 := by simpa using filled
  have something : line ++ 13 :: 10 :: rest ≠ [] := by simp
  simp only [checkTrailersLoop, crlfOffset_line plain, List.take_left, if_neg something, if_neg size,
    if_neg count, behind]
  by_cases folded : first = false ∧ isBlank (charAt line) = true
  · rw [if_pos folded]
    simp [trailerOk, folded]
  · have field : (!first && isBlank (charAt line)) = false := by
      cases first <;> simp_all
    rw [if_neg folded]
    split
    · rename_i colon
      simp [trailerOk, field, colon]
    · rename_i colon
      simp [trailerOk, field, colon]
    · rename_i index other colon
      have named : index ≠ 0 := by
        rintro rfl
        exact other rfl
      simp [trailerOk, colon, named]

theorem checkTrailersLoop_render {trailers : List Bytes}
    (lines : ∀ line ∈ trailers, NoCrlf line ∧ line ≠ []) (rest : Bytes) {fuel : Nat}
    (enough : trailers.length < fuel) (first : Bool) :
    checkTrailersLoop fuel (renderTrailers trailers ++ rest) first =
      if trailersOk first trailers = true then .ok else .errProtocol := by
  induction trailers generalizing fuel first with
  | nil =>
      obtain ⟨fuel, rfl⟩ : ∃ k, fuel = k + 1 := ⟨fuel - 1, by omega⟩
      simp [renderTrailers, checkTrailersLoop, crlfOffset, trailersOk]
  | cons line trailers ih =>
      rw [List.length_cons] at enough
      obtain ⟨fuel, rfl⟩ : ∃ k, fuel = k + 1 := ⟨fuel - 1, by omega⟩
      obtain ⟨plain, filled⟩ := lines line List.mem_cons_self
      have later := ih (fun line inside => lines line (List.mem_cons_of_mem _ inside))
        (show trailers.length < fuel by omega) false
      rw [renderTrailers_cons, checkTrailersLoop_line plain filled, later]
      cases ok : trailerOk first line
      · simp [trailersOk, ok]
      · simp [trailersOk, ok]

theorem checkTrailers_render {trailers : List Bytes}
    (lines : ∀ line ∈ trailers, NoCrlf line ∧ line ≠ []) (rest : Bytes) :
    checkTrailers (renderTrailers trailers ++ rest) =
      if trailersOk true trailers = true then .ok else .errProtocol := by
  refine checkTrailersLoop_render lines rest ?_ true
  have length : trailers.length ≤ (trailers.flatMap (· ++ [13, 10])).length := by
    induction trailers with
    | nil => exact Nat.zero_le _
    | cons line trailers ih =>
        have below := ih fun line inside => lines line (List.mem_cons_of_mem _ inside)
        simp only [List.flatMap_cons, List.length_append, List.length_cons] at below ⊢
        omega
  rw [renderTrailers, List.length_append, List.length_append]
  omega

/-- Where a chunk's payload and its line end lie. -/
theorem Chunk.payload_at (c : Chunk) (front rest : Bytes) :
    (front ++ (c.render ++ rest)).drop (front.length + c.size.length + 2) = c.payload ++ 13 :: 10 :: rest := by
  have split : front ++ (c.render ++ rest) =
      (front ++ c.size ++ [13, 10]) ++ (c.payload ++ 13 :: 10 :: rest) := by
    simp [Chunk.render]
  have start : front.length + c.size.length + 2 = (front ++ c.size ++ [13, 10]).length := by
    simp only [List.length_append, List.length_cons, List.length_nil]
  rw [split, start, List.drop_left]

theorem Chunk.payload_end (c : Chunk) (front rest : Bytes) :
    (front ++ (c.render ++ rest)).getD (front.length + c.size.length + 2 + c.payload.length) 0 = 13 ∧
      (front ++ (c.render ++ rest)).getD (front.length + c.size.length + 2 + c.payload.length + 1) 0 = 10 := by
  have behind : (front ++ (c.render ++ rest)).drop (front.length + c.size.length + 2 + c.payload.length) =
      13 :: 10 :: rest := by
    rw [← List.drop_drop, c.payload_at, List.drop_left]
  have at_ := fun k : Nat => congrArg (fun text : Bytes => text[k]?) behind
  simp only [List.getElem?_drop] at at_
  constructor
  · rw [List.getD_eq_getElem?_getD, ← Nat.add_zero (_ + c.payload.length), at_ 0]
    rfl
  · rw [List.getD_eq_getElem?_getD, at_ 1]
    rfl

theorem Chunk.render_length (c : Chunk) :
    c.render.length = c.size.length + 2 + c.payload.length + 2 := by
  simp only [Chunk.render, List.length_append, List.length_cons, List.length_nil]
  omega

theorem Chunk.findCrlf_size {c : Chunk} (valid : c.Valid) (front rest : Bytes) :
    findCrlf (front ++ (c.render ++ rest)) front.length = ⟨front.length + c.size.length, true⟩ := by
  have found := findCrlf_line front c.size (c.payload ++ 13 :: 10 :: rest) valid.line
  simpa [Chunk.render] using found

theorem Chunk.parse_size {c : Chunk} (valid : c.Valid) (front rest : Bytes) :
    parseChunkSize (front ++ (c.render ++ rest)) front.length (front.length + c.size.length) =
      some c.payload.length := by
  have parsed := parseChunkSize_line front c.size (c.payload ++ 13 :: 10 :: rest)
  rw [← valid.size, ← parsed]
  simp [Chunk.render]

/-- A chunk is decoded to its payload. -/
theorem decodeChunksLoop_chunk {c : Chunk} (valid : c.Valid) (front rest : Bytes) (fuel : Nat)
    (out : Bytes) :
    decodeChunksLoop (front ++ (c.render ++ rest)) (fuel + 1) front.length out =
      decodeChunksLoop (front ++ (c.render ++ rest)) fuel (front ++ c.render).length (out ++ c.payload) := by
  have filled : c.payload.length ≠ 0 := by simpa using valid.filled
  obtain ⟨carriage, feed⟩ := c.payload_end front rest
  have whole : ¬(front.length + c.size.length + 2 + 2 > (front ++ (c.render ++ rest)).length ∨
      c.payload.length > (front ++ (c.render ++ rest)).length - (front.length + c.size.length + 2) - 2 ∨
      (front ++ (c.render ++ rest)).getD (front.length + c.size.length + 2 + c.payload.length) 0 ≠ 13 ∨
      (front ++ (c.render ++ rest)).getD (front.length + c.size.length + 2 + c.payload.length + 1) 0 ≠
        10) := by
    rw [carriage, feed, List.length_append, List.length_append, c.render_length]
    simp only [ne_eq, not_true, or_false]
    omega
  have next : (front ++ c.render).length = front.length + c.size.length + 2 + c.payload.length + 2 := by
    rw [List.length_append, c.render_length]
    omega
  rw [decodeChunksLoop]
  simp only [Chunk.findCrlf_size valid, Bool.true_eq_false, if_false, Chunk.parse_size valid, if_neg filled,
    if_neg whole, c.payload_at, List.take_left, next]

theorem decodeChunksLoop_render {m : ChunkedMessage} (valid : m.Valid) (front rest : Bytes) {fuel : Nat}
    (enough : m.chunks.length < fuel) (out : Bytes) :
    decodeChunksLoop (front ++ (m.render ++ rest)) fuel front.length out =
      if m.TrailersOk then .ok (out ++ m.body) else .error .errProtocol := by
  obtain ⟨chunks, last, trailers⟩ := m
  obtain ⟨validChunks, lastLine, lastSize, lines⟩ := valid
  dsimp only at validChunks lastLine lastSize lines enough
  induction chunks generalizing front fuel out with
  | nil =>
      obtain ⟨fuel, rfl⟩ : ∃ k, fuel = k + 1 := ⟨fuel - 1, by omega⟩
      have text : front ++ ((⟨[], last, trailers⟩ : ChunkedMessage).render ++ rest) =
          front ++ (last ++ 13 :: 10 :: (renderTrailers trailers ++ rest)) := by
        simp [ChunkedMessage.render, renderChunks]
      have behind : (front ++ (last ++ 13 :: 10 :: (renderTrailers trailers ++ rest))).drop
          (front.length + last.length + 2) = renderTrailers trailers ++ rest := by
        rw [← List.drop_drop, ← List.length_append, ← List.append_assoc, List.drop_left]
        rfl
      rw [text, decodeChunksLoop]
      simp only [findCrlf_line front last _ lastLine, Bool.true_eq_false, if_false,
        parseChunkSize_line, lastSize, if_true, behind, checkTrailers_render lines]
      simp only [decodeResult, ChunkedMessage.TrailersOk, ChunkedMessage.body, chunksBody,
        List.flatMap_nil, List.append_nil]
      split
      · rfl
      · rfl
  | cons c chunks ih =>
      rw [List.length_cons] at enough
      obtain ⟨fuel, rfl⟩ : ∃ k, fuel = k + 1 := ⟨fuel - 1, by omega⟩
      have later := ih (front ++ c.render) (out ++ c.payload)
        (show chunks.length < fuel by omega)
        (fun c inside => validChunks c (List.mem_cons_of_mem _ inside))
      rw [List.append_assoc] at later
      rw [ChunkedMessage.render_cons, decodeChunksLoop_chunk (validChunks c List.mem_cons_self), later]
      simp [ChunkedMessage.TrailersOk, ChunkedMessage.body, chunksBody]

theorem renderChunks_length (chunks : List Chunk) : chunks.length ≤ (renderChunks chunks).length := by
  induction chunks with
  | nil => exact Nat.zero_le _
  | cons c chunks ih =>
      simp only [renderChunks, List.flatMap_cons, List.length_append, List.length_cons, Chunk.render] at ih ⊢
      omega

/-- A message decodes to its body if its trailer section is well formed, whatever follows it. -/
theorem decodeChunks_render {m : ChunkedMessage} (valid : m.Valid) (rest : Bytes) :
    decodeChunks (m.render ++ rest) = if m.TrailersOk then .ok m.body else .error .errProtocol := by
  have enough : m.chunks.length < (m.render ++ rest).length + 1 := by
    have chunks := renderChunks_length m.chunks
    rw [ChunkedMessage.render, List.length_append, List.length_append]
    omega
  exact decodeChunksLoop_render valid [] rest enough []

/-! ## What decodes is a message -/

theorem split_payload {rest : Bytes} {clen : Nat} (arrived : clen + 2 ≤ rest.length)
    (carriage : rest.getD clen 0 = 13) (feed : rest.getD (clen + 1) 0 = 10) :
    rest = rest.take clen ++ 13 :: 10 :: rest.drop (clen + 2) := by
  have first : rest.drop clen = 13 :: rest.drop (clen + 1) := by
    rw [List.drop_eq_getElem_cons (by omega)]
    rw [List.getD_eq_getElem?_getD, List.getElem?_eq_getElem (by omega), Option.getD_some] at carriage
    rw [carriage]
  have second : rest.drop (clen + 1) = 10 :: rest.drop (clen + 2) := by
    rw [List.drop_eq_getElem_cons (by omega)]
    rw [List.getD_eq_getElem?_getD, List.getElem?_eq_getElem (by omega), Option.getD_some] at feed
    rw [feed]
  rw [← second, ← first, List.take_append_drop]

/-- A size line and the payload behind it are a chunk. -/
theorem chunk_of_parts {front line rest : Bytes} {clen : Nat} (plain : NoCrlf line)
    (size : chunkSize line = some clen) (filled : clen ≠ 0)
    (arrived : front.length + line.length + 2 + clen + 2 ≤ (front ++ (line ++ 13 :: 10 :: rest)).length)
    (carriage : (front ++ (line ++ 13 :: 10 :: rest)).getD (front.length + line.length + 2 + clen) 0 = 13)
    (feed : (front ++ (line ++ 13 :: 10 :: rest)).getD (front.length + line.length + 2 + clen + 1) 0 = 10) :
    ∃ c : Chunk, c.Valid ∧ c.size = line ∧ c.payload.length = clen ∧
      ∃ rest', line ++ 13 :: 10 :: rest = c.render ++ rest' := by
  have regroup : front ++ (line ++ 13 :: 10 :: rest) = (front ++ line ++ [13, 10]) ++ rest := by simp
  have start : front.length + line.length + 2 = (front ++ line ++ [13, 10]).length := by
    simp only [List.length_append, List.length_cons, List.length_nil]
  rw [regroup, start] at arrived carriage feed
  rw [Nat.add_assoc] at feed
  have total : ((front ++ line ++ [13, 10]) ++ rest).length =
      (front ++ line ++ [13, 10]).length + rest.length := List.length_append
  rw [total] at arrived
  have behind : ∀ k, ((front ++ line ++ [13, 10]) ++ rest).getD ((front ++ line ++ [13, 10]).length + k) 0 =
      rest.getD k 0 := fun k => by
    simp only [List.getD_eq_getElem?_getD, List.getElem?_append_right (Nat.le_add_right _ _),
      Nat.add_sub_cancel_left]
  rw [behind] at carriage feed
  have parts := split_payload (by omega) carriage feed
  have count : (rest.take clen).length = clen := by
    rw [List.length_take]
    omega
  refine ⟨⟨line, rest.take clen⟩, ⟨plain, by rw [size, count], fun empty => filled ?_⟩, rfl, count,
    rest.drop (clen + 2), ?_⟩
  · rw [← count]
    exact congrArg List.length empty
  · rw [Chunk.render]
    dsimp only
    rw [List.append_assoc, List.cons_append, List.cons_append, List.append_assoc, List.cons_append,
      List.cons_append, List.nil_append, ← parts]

theorem ChunkedMessage.Valid.cons {c : Chunk} {m : ChunkedMessage} (validChunk : c.Valid)
    (valid : m.Valid) : ({ m with chunks := c :: m.chunks } : ChunkedMessage).Valid where
  chunks c' member := by
    cases List.mem_cons.mp member with
    | inl same => exact same ▸ validChunk
    | inr later => exact valid.chunks c' later
  lastLine := valid.lastLine
  lastSize := valid.lastSize
  trailers := valid.trailers

theorem forall_line_cons {line : Bytes} {trailers : List Bytes} (plain : NoCrlf line) (filled : line ≠ [])
    (lines : ∀ line ∈ trailers, NoCrlf line ∧ line ≠ []) :
    ∀ line' ∈ line :: trailers, NoCrlf line' ∧ line' ≠ [] := by
  intro line' member
  cases List.mem_cons.mp member with
  | inl same => exact same ▸ ⟨plain, filled⟩
  | inr later => exact lines line' later

theorem checkTrailersLoop_ok {fuel : Nat} {raw : Bytes} {first : Bool}
    (run : checkTrailersLoop fuel raw first = .ok) :
    ∃ trailers rest, (∀ line ∈ trailers, NoCrlf line ∧ line ≠ []) ∧
      raw = renderTrailers trailers ++ rest := by
  induction fuel generalizing raw first with
  | zero => cases run
  | succ fuel ih =>
      have ended : crlfOffset raw + 1 < raw.length := by
        by_contra open_
        simp only [checkTrailersLoop, if_pos (Nat.not_lt.mp open_)] at run
        split at run <;> cases run
      obtain ⟨line, rest, rfl, plain, -⟩ := crlfOffset_split ended
      by_cases filled : line = []
      · subst filled
        exact ⟨[], rest, by simp, by simp [renderTrailers]⟩
      · rw [checkTrailersLoop_line plain filled] at run
        split at run
        · obtain ⟨trailers, rest, lines, rfl⟩ := ih run
          exact ⟨line :: trailers, rest, forall_line_cons plain filled lines,
            (renderTrailers_cons ..).symm⟩
        · cases run

theorem decodeChunksLoop_ok {front text out body : Bytes} {fuel : Nat}
    (run : decodeChunksLoop (front ++ text) fuel front.length out = .ok body) :
    ∃ (m : ChunkedMessage) (rest : Bytes), m.Valid ∧ text = m.render ++ rest := by
  induction fuel generalizing front text out with
  | zero => cases run
  | succ fuel ih =>
      rw [decodeChunksLoop] at run
      dsimp only at run
      split at run
      · cases run
      · rename_i missing
        obtain ⟨line, rest, rfl, plain⟩ := findCrlf_split front (by simpa using missing)
        rw [findCrlf_line front line rest plain, parseChunkSize_line] at run
        cases size : chunkSize line with
        | none =>
            rw [size] at run
            cases run
        | some clen =>
            rw [size] at run
            dsimp only at run
            split at run
            · rename_i last
              subst last
              have behind : (front ++ (line ++ 13 :: 10 :: rest)).drop (front.length + line.length + 2) =
                  rest := by
                rw [← List.drop_drop, ← List.length_append, ← List.append_assoc, List.drop_left]
                rfl
              rw [behind] at run
              have checked : checkTrailers rest = .ok := by
                by_contra failed
                simp only [decodeResult, if_neg failed] at run
                cases run
              obtain ⟨trailers, rest, lines, rfl⟩ := checkTrailersLoop_ok checked
              exact ⟨⟨[], line, trailers⟩, rest, ⟨by simp, plain, size, lines⟩,
                by simp [ChunkedMessage.render, renderChunks]⟩
            · rename_i filled
              split at run
              · cases run
              · rename_i whole
                simp only [not_or, not_not, Nat.not_lt] at whole
                obtain ⟨-, inside, carriage, feed⟩ := whole
                obtain ⟨c, validChunk, rfl, rfl, rest, split⟩ := chunk_of_parts plain size filled
                  (by omega) carriage feed
                have next : front.length + c.size.length + 2 + c.payload.length + 2 =
                    (front ++ c.render).length := by
                  rw [List.length_append, c.render_length]
                  omega
                rw [next, split, ← List.append_assoc] at run
                obtain ⟨m, rest, valid, rfl⟩ := ih run
                exact ⟨{ m with chunks := c :: m.chunks }, rest, valid.cons validChunk, by
                  rw [split, ChunkedMessage.render_cons]⟩

theorem decodeChunks_message {raw body : Bytes} (run : decodeChunks raw = .ok body) :
    ∃ (m : ChunkedMessage) (rest : Bytes), m.Valid ∧ raw = m.render ++ rest ∧ m.TrailersOk ∧
      m.body = body := by
  have run' : decodeChunksLoop ([] ++ raw) (raw.length + 1) ([] : Bytes).length [] = .ok body := run
  obtain ⟨m, rest, valid, rfl⟩ := decodeChunksLoop_ok run'
  rw [decodeChunks_render valid] at run
  split at run
  · rename_i checked
    cases run
    exact ⟨m, rest, valid, rfl, checked, rfl⟩
  · cases run

end WolfCert.Http
