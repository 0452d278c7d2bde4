import WolfCert.Est.Consumed
import WolfCert.Server.Wire

/-!
# Responses of the EST server

`send_response` of `est_server.c`: how a response goes out, and that the client reads every one of them
as it was meant.
-/

namespace WolfCert.Est

open WolfCert.CLib WolfCert.Server WolfCert.Http

/-- The header text. A 204 has no Content-Length. -/
def responseText (keepAlive : Bool) (r : Response) : Bytes :=
  if r.status = 204 then
    ascii "HTTP/1.1 204 " ++ r.phrase ++ ascii "\r\n" ++ r.headers ++
      ascii "Connection: " ++ connHdr keepAlive ++ ascii "\r\n\r\n"
  else
    ascii "HTTP/1.1 " ++ decimal r.status ++ ascii " " ++ r.phrase ++ ascii "\r\n" ++ r.headers ++
      ascii "Content-Length: " ++ decimal r.bodyLen ++ ascii "\r\nConnection: " ++ connHdr keepAlive ++
      ascii "\r\n\r\n"

def responseBufSz : Nat := 320

/-- A header text that does not fit its buffer is not sent, and neither is the body. -/
def sendResponse (keepAlive : Bool) (r : Response) : Bytes :=
  if (responseText keepAlive r).length ≥ responseBufSz then [] else responseText keepAlive r ++ r.body.getD []

def sentResponse : Except Refusal Response → Response
  | .ok r => r
  | .error (_, r) => r

/-! ## Shapes -/

/-- A 204 has no Content-Length. -/
def Response.counted (r : Response) : Option Nat := if r.status = 204 then none else some r.bodyLen

/-- A response with those fields, to HEAD or not. They leave the framing alone, and the text is far from
filling its buffer. -/
structure Shaped (head : Bool) (r : Response) (fields : List Field) : Prop where
  headers : r.headers = joinLines (fields.map Field.line)
  unframed : Unframed fields
  code : 200 ≤ r.status ∧ r.status ≤ 999
  text : ∀ c ∈ r.phrase, c ≠ 0 ∧ c ≠ 10
  short : r.phrase.length + r.headers.length ≤ 160
  body : r.body.getD [] = [] ∧ (head = true ∨ r.bodyLen = 0) ∨
    head = false ∧ r.status ≠ 204 ∧ r.status ≠ 304 ∧ (r.body.getD []).length = r.bodyLen
  empty : r.status = 204 → r.bodyLen = 0

section Shapes

variable {head keepAlive : Bool} {r : Response} {fields : List Field}

theorem Shaped.responseText_eq (shaped : Shaped head r fields) :
    responseText keepAlive r = responseHead r.status r.phrase (fields ++ ownFields keepAlive r.counted) := by
  have number : decimal 204 = ascii "204" := by decide
  have blank : ascii "HTTP/1.1 204 " = ascii "HTTP/1.1 " ++ (ascii "204" ++ [32]) := by decide
  have space : ascii " " = [32] := by decide
  have ends : ascii "\r\n" = [13, 10] ∧ ascii "\r\n\r\n" = [13, 10, 13, 10] := by decide
  have names : ascii "Connection: " = ascii "Connection" ++ [58, 32] ∧
      ascii "Content-Length: " = ascii "Content-Length" ++ [58, 32] ∧
      ascii "\r\nConnection: " = 13 :: 10 :: (ascii "Connection" ++ [58, 32]) := by decide
  unfold responseText Response.counted
  split
  · rename_i bodiless
    simp [shaped.headers, bodiless, number, blank, ends, names, responseHead, statusLine, joinLines, Field.line,
      ownFields, connectionField]
  · simp [shaped.headers, space, ends, names, responseHead, statusLine, joinLines, Field.line, ownFields, lengthField,
      connectionField]

/-- The text fits its buffer. -/
theorem Shaped.fits (shaped : Shaped head r fields) (size : r.bodyLen ≤ sizeRange) :
    (responseText keepAlive r).length < responseBufSz := by
  have code : (decimal r.status).length ≤ 3 := decimal_le (by decide) (by have := shaped.code; omega)
  have digits : (decimal r.bodyLen).length ≤ 20 :=
    decimal_le (by decide) (Nat.lt_of_le_of_lt size (by decide))
  have short := shaped.short
  have connection := connHdr_length keepAlive
  have sizes : (ascii "HTTP/1.1 204 ").length = 13 ∧ (ascii "\r\n").length = 2 ∧
      (ascii "Connection: ").length = 12 ∧ (ascii "\r\n\r\n").length = 4 ∧ (ascii "HTTP/1.1 ").length = 9 ∧
      (ascii " ").length = 1 ∧ (ascii "Content-Length: ").length = 16 ∧
      (ascii "\r\nConnection: ").length = 14 := by decide
  have room : responseBufSz = 320 := rfl
  unfold responseText
  split <;>
    · simp only [List.length_append, sizes]
      omega

/-- The client reads the response as it was meant. -/
theorem Shaped.read (shaped : Shaped head r fields) (ctx : ReplyContext) (same : ctx.headRequest = head)
    (fits : r.bodyLen ≤ ctx.maxBody ∧ (r.bodyLen : Int) ≤ longMax) (interims : Nat) (later : Bytes) :
    ctx.reply interims (sendResponse keepAlive r ++ later) = .ok
      { response :=
          { statusCode := r.status, contentType := lookup (ascii "Content-Type") fields, body := r.body.getD []
            retryAfterSec := (lookup (ascii "Retry-After") fields).elim 0 (parseRetryAfter · ctx.now) }
        after := later, toClose := false } := by
  have size : r.bodyLen ≤ sizeRange := by
    have limit : longMax = 9223372036854775807 ∧ sizeRange = 18446744073709551616 := by decide
    omega
  have within : (responseText keepAlive r).length < responseBufSz := shaped.fits size
  have room : responseBufSz = 320 ∧ headerBudget = 8192 := ⟨rfl, rfl⟩
  have sized : if responseHasNoBody r.status ctx.headRequest then r.body.getD [] = []
      else r.counted = some (r.body.getD []).length := by
    split
    · rename_i bodiless
      rcases shaped.body with ⟨none', -⟩ | ⟨method, other, other', -⟩
      · exact none'
      · rw [same, method] at bodiless
        simp [responseHasNoBody] at bodiless
        omega
    · rename_i bodied
      simp only [responseHasNoBody, Bool.or_eq_true, decide_eq_true_eq, not_or] at bodied
      obtain ⟨⟨method, counted⟩, -⟩ := bodied
      rw [Response.counted, if_neg (by omega)]
      rcases shaped.body with ⟨none', whole | zero⟩ | ⟨-, -, -, full⟩
      · exact absurd (same.trans whole) method
      · rw [none', zero]
        rfl
      · rw [full]
  have bound : (r.body.getD []).length ≤ r.bodyLen := by
    rcases shaped.body with ⟨none', -⟩ | ⟨-, -, -, full⟩
    · simp [none']
    · omega
  rw [sendResponse, if_neg (by omega)]
  rw [shaped.responseText_eq] at within ⊢
  exact reply_framed ctx interims shaped.code shaped.text shaped.unframed (by omega) sized ⟨by omega, by omega⟩ later

end Shapes

/-! ## The responses of the handlers -/

/-- The response is shaped, whatever the code. -/
def SentShaped (head : Bool) (answer : Except Refusal Response) : Prop :=
  ∃ fields, Shaped head (sentResponse answer) fields

/-- A refusal of an enrolment. -/
def Refuses (e : Refusal) : Prop := SentShaped false (.error e)

section Handlers

variable {σ : Type} {env : EstServerEnv σ} {srv : EstServer} {req : EstRequest} {rc : Rc} {why : String}

end Handlers

end WolfCert.Est
