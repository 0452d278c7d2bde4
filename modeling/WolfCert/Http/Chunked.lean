import WolfCert.Http.Fields

/-!
# Chunked bodies

The resumable framing scan `wolfcert_http_chunked_complete` and the decoder
`wolfcert_http_chunked_decode`.
-/

namespace WolfCert.Http

open WolfCert.CLib

/-- How far the next CRLF is, or how far the search may resume when there is none. -/
def crlfOffset : Bytes → Nat
  | a :: b :: rest => if a = 13 ∧ b = 10 then 0 else crlfOffset (b :: rest) + 1
  | _ => 0

structure FindCrlf where
  index : Nat
  found : Bool
deriving DecidableEq, Repr

def findCrlf (raw : Bytes) (start : Nat) : FindCrlf :=
  let i := start + crlfOffset (raw.drop start)
  { index := i, found := decide (i + 1 < raw.length) }

def isBlank (c : UInt8) : Bool := c == 32 || c == 9

/-- The digit loop of `parse_chunk_size` over the rest of the line. -/
def chunkSizeLoop : Bytes → Nat → Bool → Option Nat
  | [], v, parsed => if parsed then some v else none
  | c :: rest, v, parsed =>
      if c = 59 then if parsed then some v else none
      else if parsed && isBlank c then
        if charAt (rest.dropWhile isBlank) = 59 then some v else none
      else
        match hexDigit c with
        | none => none
        | some d => if v > 0x0FFFFFFF then none else chunkSizeLoop rest (v * 16 + d) true

def parseChunkSize (raw : Bytes) (ri he : Nat) : Option Nat :=
  chunkSizeLoop ((raw.take he).drop ri) 0 false

/-- `WolfCertChunkScan`; `max` zero means no cap. -/
structure ChunkScan where
  pos : Nat
  crlf : Nat
  chunk : Nat
  total : Nat
  max : Nat
  inTrailers : Bool
deriving DecidableEq, Repr

def ChunkScan.start (max : Nat) : ChunkScan :=
  { pos := 0, crlf := 0, chunk := 0, total := 0, max, inTrailers := false }

/-- The results 0, 1 and -1 of `wolfcert_http_chunked_complete`. -/
inductive Framing where
  | more
  | complete
  | malformed
deriving DecidableEq, Repr

def overCap (st : ChunkScan) (chunk : Nat) : Bool :=
  decide (st.max ≠ 0 ∧ chunk > st.max - st.total)

/-- Where the scan looks for the end of the current line. -/
def lineStart (st : ChunkScan) : Nat := max st.pos st.crlf

/-- What follows a complete line, once its end is found at `index`. -/
def lineTurn (raw : Bytes) (st : ChunkScan) (index : Nat) : Option Framing × ChunkScan :=
  let st := { st with crlf := index }
  if st.inTrailers then
    if index = st.pos then (some .complete, { st with pos := index + 2 })
    else (none, { st with pos := index + 2 })
  else
    match parseChunkSize raw st.pos index with
    | none => (some .malformed, st)
    | some chunk =>
        let st := { st with chunk }
        if overCap st chunk then (some .malformed, st)
        else if chunk = 0 then (none, { st with inTrailers := true, pos := index + 2 })
        else (none, { st with total := st.total + chunk, pos := index + 2 })

/-- One turn of the scan loop, entered with `st.pos < raw.length`: stop with a verdict or go on. -/
def chunkedTurn (raw : Bytes) (st : ChunkScan) : Option Framing × ChunkScan :=
  let ri := st.pos
  if st.chunk > 0 then
    if raw.length - ri < 2 ∨ st.chunk > raw.length - ri - 2 then (some .more, st)
    else if raw.getD (ri + st.chunk) 0 ≠ 13 ∨ raw.getD (ri + st.chunk + 1) 0 ≠ 10 then
      (some .malformed, st)
    else (none, { st with pos := ri + st.chunk + 2, chunk := 0 })
  else
    let line := findCrlf raw (lineStart st)
    if line.found = false then (some .more, { st with crlf := line.index })
    else lineTurn raw st line.index

/-- Every turn that goes on moves `pos`, so the unread length bounds the loop. -/
def chunkedLoop (raw : Bytes) : Nat → ChunkScan → Framing × ChunkScan
  | 0, st => (.more, st)
  | fuel + 1, st =>
      if st.pos < raw.length then
        match chunkedTurn raw st with
        | (some verdict, st') => (verdict, st')
        | (none, st') => chunkedLoop raw fuel st'
      else (.more, st)

def httpChunkedComplete (raw : Bytes) (st : ChunkScan) : Framing × ChunkScan :=
  chunkedLoop raw (raw.length - st.pos) st

/-- One line of the trailer section: `start` is whether the line opens the section. -/
def checkTrailersLoop : Nat → Bytes → Bool → Rc
  | 0, _, _ => .errProtocol
  | fuel + 1, raw, start =>
      let n := crlfOffset raw
      let line := raw.take n
      if raw = [] then .errProtocol
      else if n + 1 ≥ raw.length then .errProtocol
      else if n = 0 then .ok
      else if start = false ∧ isBlank (charAt line) then checkTrailersLoop fuel (raw.drop (n + 2)) false
      else
        match line.findIdx? (· == 58) with
        | none => .errProtocol
        | some 0 => .errProtocol
        | some _ => checkTrailersLoop fuel (raw.drop (n + 2)) false

def checkTrailers (raw : Bytes) : Rc :=
  checkTrailersLoop (raw.length + 1) raw true

structure Decoded where
  rc : Rc
  memory : Bytes
  outLen : Nat
deriving DecidableEq, Repr

/-- `chunked_decode_into` inside one memory: `len` source bytes at `src`, the output at `dst`.
Both `p` and `w` are offsets from those two pointers, and every turn moves `p`. -/
def chunkedDecodeLoop (dst src len : Nat) : Nat → Bytes → Nat → Nat → Decoded
  | 0, memory, _, w => { rc := .errProtocol, memory, outLen := w }
  | fuel + 1, memory, p, w =>
      let raw := (memory.drop src).take len
      let line := findCrlf raw p
      if line.found = false then { rc := .errProtocol, memory, outLen := 0 }
      else
        match parseChunkSize raw p line.index with
        | none => { rc := .errProtocol, memory, outLen := 0 }
        | some clen =>
            let p := line.index + 2
            if clen = 0 then { rc := checkTrailers (raw.drop p), memory, outLen := w }
            else if p + 2 > len ∨ clen > len - p - 2 ∨
                raw.getD (p + clen) 0 ≠ 13 ∨ raw.getD (p + clen + 1) 0 ≠ 10 then
              { rc := .errProtocol, memory, outLen := 0 }
            else
              chunkedDecodeLoop dst src len fuel (memmove memory (dst + w) (src + p) clen)
                (p + clen + 2) (w + clen)

def chunkedDecodeInto (memory : Bytes) (dst src len : Nat) : Decoded :=
  chunkedDecodeLoop dst src len (len + 1) memory 0 0

end WolfCert.Http
