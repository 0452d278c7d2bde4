import WolfCert.Http.ChunkedDecode
import WolfCert.Http.Session

/-!
# The meaning of a reply

What a whole inbound byte stream that ends in an orderly close amounts to, with no buffer, no reads
and no states: the response it carries or the code it is refused with.
-/

namespace WolfCert.Http

open WolfCert.CLib

/-- What the exchange fixes before the first reply byte. -/
structure ReplyContext where
  now : Int
  maxBody : Nat
  headRequest : Bool

/-- The fields of a final head that matter for what follows it. -/
structure ReplyHead where
  status : Int
  chunked : Bool
  contentLength : Int
  contentType : Option Bytes
  retryAfterSec : Int

inductive HeadKind where
  | refused
  | interim
  | final (head : ReplyHead)

def ReplyContext.framing (ctx : ReplyContext) (status : Int) (hdrs : Bytes) : Bool × Int :=
  if responseHasNoBody status ctx.headRequest then (false, 0)
  else
    (match findHeader hdrs (ascii "Transfer-Encoding") with
      | some te => decide (ciCmp te (ascii "chunked") = 0)
      | none => false,
     match findHeader hdrs (ascii "Content-Length") with
      | some cl => (strtol cl).1
      | none => -1)

def ReplyContext.finalHead (ctx : ReplyContext) (status : Int) (hdrs : Bytes) : ReplyHead where
  status := status
  chunked := (ctx.framing status hdrs).1
  contentLength := (ctx.framing status hdrs).2
  contentType := findHeader hdrs (ascii "Content-Type")
  retryAfterSec :=
    match findHeader hdrs (ascii "Retry-After") with
    | some value => parseRetryAfter value ctx.now
    | none => 0

theorem ReplyContext.framing_le (ctx : ReplyContext) (status : Int) (hdrs : Bytes) :
    (ctx.framing status hdrs).2 ≤ longMax := by
  unfold ReplyContext.framing
  split
  · decide
  · dsimp only
    split
    · exact strtol_le _
    · decide

/-- A complete head, up to and with its blank line. -/
def ReplyContext.classify (ctx : ReplyContext) (head : Bytes) : HeadKind :=
  let hdrs := cString head
  match parseStatusLine hdrs with
  | none => .refused
  | some status =>
      if status = 101 then .refused
      else if statusIsInterim status then .interim
      else
        let final := ctx.finalHead status hdrs
        if final.contentLength ≥ 0 ∧ final.contentLength.toNat > ctx.maxBody then .refused
        else .final final

/-- A body, the bytes after it, and whether the close of the connection ended it. -/
structure Body where
  content : Bytes
  after : Bytes
  toClose : Bool

def bodyOfLength (length : Nat) (rest : Bytes) : Except Rc Body :=
  if rest.length < length then .error .errIo
  else .ok { content := rest.take length, after := rest.drop length, toClose := false }

def bodyToClose (maxBody : Nat) (rest : Bytes) : Except Rc Body :=
  if rest.length ≤ maxBody then .ok { content := rest, after := [], toClose := true }
  else .error .errProtocol

/-- A chunked body has to be complete within the first `room` bytes after the head. -/
def bodyInChunks (maxBody room : Nat) (rest : Bytes) : Except Rc Body :=
  match httpChunkedComplete (rest.take room) (.start maxBody) with
  | (.malformed, _) => .error .errProtocol
  | (.more, _) => .error (if rest.length > room then .errProtocol else .errIo)
  | (.complete, scan) =>
      (decodeChunks (rest.take scan.pos)).map fun content =>
        { content, after := rest.drop scan.pos, toClose := false }

/-- How far a chunked body may reach. A limit past `size_t` wraps in the code; what it then still
accepts ends inside the stream. -/
def chunkRoom (maxBody hdrEnd : Nat) (rest : Bytes) : Nat :=
  if maxBody + headerBudget < sizeRange then rxMax maxBody - hdrEnd else rest.length

/-- The body that follows a head of `hdrEnd` bytes. -/
def ReplyContext.body (ctx : ReplyContext) (head : ReplyHead) (hdrEnd : Nat) (rest : Bytes) :
    Except Rc Body :=
  if head.chunked then bodyInChunks ctx.maxBody (chunkRoom ctx.maxBody hdrEnd rest) rest
  else if head.contentLength ≥ 0 then bodyOfLength head.contentLength.toNat rest
  else bodyToClose ctx.maxBody rest

def ReplyHead.response (head : ReplyHead) (body : Bytes) : HttpResponse where
  statusCode := head.status
  contentType := head.contentType
  body := body
  retryAfterSec := head.retryAfterSec

/-- A response, the bytes after it, and whether the close of the connection ended it. -/
structure Reply where
  response : HttpResponse
  after : Bytes
  toClose : Bool

def ReplyHead.reply (head : ReplyHead) (body : Body) : Reply where
  response := head.response body.content
  after := body.after
  toClose := body.toClose

/-- The reply a stream carries when `interims` more interim heads may precede it. -/
def ReplyContext.reply (ctx : ReplyContext) (interims : Nat) (stream : Bytes) :
    Except Rc Reply :=
  let window := stream.take headerBudget
  let i := headScan window 0
  if i + 3 ≥ window.length then
    .error (if stream.length ≥ headerBudget then .errProtocol else .errIo)
  else
    match ctx.classify (stream.take (i + 4)) with
    | .refused => .error .errProtocol
    | .interim =>
        match interims with
        | 0 => .error .errProtocol
        | interims + 1 => ctx.reply interims (stream.drop (i + 4))
    | .final head => (ctx.body head (i + 4) (stream.drop (i + 4))).map head.reply

/-- No blank line within the budget. -/
theorem ReplyContext.reply_headless (ctx : ReplyContext) (interims : Nat) {stream : Bytes}
    (missing : headScan (stream.take headerBudget) 0 + 3 ≥ (stream.take headerBudget).length) :
    ctx.reply interims stream =
      .error (if stream.length ≥ headerBudget then .errProtocol else .errIo) := by
  unfold ReplyContext.reply
  exact if_pos missing

theorem ReplyContext.reply_headed (ctx : ReplyContext) (interims : Nat) {stream : Bytes} {i : Nat}
    (found : headScan (stream.take headerBudget) 0 = i)
    (inside : i + 3 < (stream.take headerBudget).length) :
    ctx.reply interims stream =
      match ctx.classify (stream.take (i + 4)) with
      | .refused => .error .errProtocol
      | .interim =>
          match interims with
          | 0 => .error .errProtocol
          | interims + 1 => ctx.reply interims (stream.drop (i + 4))
      | .final head => (ctx.body head (i + 4) (stream.drop (i + 4))).map head.reply := by
  subst found
  rw [ReplyContext.reply.eq_def]
  exact if_neg (Nat.not_le_of_gt inside)

/-! ## The search for the blank line -/

theorem headScan_offset (text : Bytes) (i : Nat) : headScan text i = i + headScan text 0 := by
  induction text generalizing i with
  | nil => rfl
  | cons a rest ih =>
      match rest with
      | [] => rfl
      | [_] => rfl
      | [_, _] => rfl
      | b :: c :: d :: rest =>
          by_cases blank : a = 13 ∧ b = 10 ∧ c = 13 ∧ d = 10
          · simp only [headScan, if_pos blank, Nat.add_zero]
          · rw [headScan, if_neg blank, headScan, if_neg blank, ih (i + 1), ih (0 + 1)]
            omega

/-- A blank line found stays where it is when bytes follow. -/
theorem headScan_found {text : Bytes} (found : headScan text 0 + 3 < text.length) (more : Bytes) :
    headScan (text ++ more) 0 = headScan text 0 := by
  induction text with
  | nil => simp at found
  | cons a rest ih =>
      match rest with
      | [] => simp [headScan] at found
      | [_] => simp [headScan] at found
      | [_, _] => simp [headScan] at found
      | b :: c :: d :: rest =>
          by_cases blank : a = 13 ∧ b = 10 ∧ c = 13 ∧ d = 10
          · simp only [List.cons_append, headScan, if_pos blank]
          · simp only [List.cons_append, headScan, if_neg blank] at found ih ⊢
            rw [headScan_offset] at found ⊢
            rw [headScan_offset (b :: c :: d :: rest)]
            simp only [List.length_cons] at found ih
            rw [ih (by omega)]

/-- More bytes never move the place where the search stops back. -/
theorem headScan_le (text more : Bytes) : headScan text 0 ≤ headScan (text ++ more) 0 := by
  induction text with
  | nil => simp [headScan]
  | cons a rest ih =>
      match rest with
      | [] => simp [headScan]
      | [_] => simp [headScan]
      | [_, _] => simp [headScan]
      | b :: c :: d :: rest =>
          by_cases blank : a = 13 ∧ b = 10 ∧ c = 13 ∧ d = 10
          · simp only [List.cons_append, headScan, if_pos blank, Nat.le_refl]
          · simp only [List.cons_append, headScan, if_neg blank] at ih ⊢
            rw [headScan_offset, headScan_offset (b :: c :: d :: (rest ++ more))]
            omega

/-- The search may start anywhere before the place where it stops. -/
theorem headScan_resume {text : Bytes} {k : Nat} (before : k ≤ headScan text 0) :
    headScan (text.drop k) k = headScan text 0 := by
  induction text generalizing k with
  | nil =>
      have zero : k = 0 := by simpa [headScan] using before
      rw [zero, List.drop_zero]
  | cons a rest ih =>
      cases k with
      | zero => rfl
      | succ k =>
          match rest with
          | [] => simp [headScan] at before
          | [_] => simp [headScan] at before
          | [_, _] => simp [headScan] at before
          | b :: c :: d :: rest =>
              by_cases blank : a = 13 ∧ b = 10 ∧ c = 13 ∧ d = 10
              · simp [headScan, if_pos blank] at before
              · simp only [headScan, if_neg blank, List.drop_succ_cons] at before ih ⊢
                rw [headScan_offset] at before ⊢
                have later := ih (k := k) (by omega)
                rw [headScan_offset] at later
                rw [headScan_offset (b :: c :: d :: rest)]
                omega

end WolfCert.Http
