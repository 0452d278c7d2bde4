import WolfCert.CLib.Bytes
import WolfCert.Errors

/-!
# Header fields

Field lookup, the status line and `Retry-After`, over the header block as one C string.
-/

namespace WolfCert.Http

open WolfCert.CLib

def ciLower (c : UInt8) : UInt8 :=
  if 65 ≤ c ∧ c ≤ 90 then c + 32 else c

def ciCmp : Bytes → Bytes → Int
  | a :: as, b :: bs =>
      if ciLower a = ciLower b then ciCmp as bs
      else ((ciLower a).toNat : Int) - (ciLower b).toNat
  | as, bs => ((ciLower (charAt as)).toNat : Int) - (ciLower (charAt bs)).toNat

def asciiNcasecmp : Bytes → Bytes → Nat → Int
  | _, _, 0 => 0
  | as, bs, n + 1 =>
      let ca := ciLower (charAt as)
      let cb := ciLower (charAt bs)
      if ca ≠ cb then (ca.toNat : Int) - cb.toNat
      else if ca = 0 then 0
      else asciiNcasecmp as.tail bs.tail n

/-- `line` is exactly the `llen` bytes before the line end. -/
def httpHdrIs (line name : Bytes) : Bool :=
  let n := name.length
  decide (line.length > n) && charAt (line.drop n) == 58 &&
    decide (asciiNcasecmp line name n = 0)

inductive HdrSplit where
  | value (val : Bytes)
  | malformed
deriving DecidableEq, Repr

def httpHdrSplit (line : Bytes) : HdrSplit :=
  let before := line.takeWhile (· != 58)
  match line.dropWhile (· != 58) with
  | [] => .value []
  | _ :: after =>
      match before.getLast? with
      | some last =>
          if last = 32 ∨ last = 9 then .malformed
          else .value (after.dropWhile fun c => c == 32 || c == 9)
      | none => .value (after.dropWhile fun c => c == 32 || c == 9)

/-- The loop of `find_header`; every turn consumes a CRLF, so the length of the text bounds it. -/
def findHeaderFrom (name : Bytes) : Nat → Bytes → Option Bytes
  | 0, _ => none
  | fuel + 1, p =>
      match strstr [13, 10] p with
      | none => none
      | some (line, rest) =>
          if httpHdrIs line name then
            match httpHdrSplit line with
            | .value val => some val
            | .malformed => findHeaderFrom name fuel rest
          else findHeaderFrom name fuel rest

def findHeader (headers name : Bytes) : Option Bytes :=
  findHeaderFrom name (headers.length + 1) headers

theorem httpHdrSplit_length {line val : Bytes} (split : httpHdrSplit line = .value val) :
    val.length ≤ line.length := by
  have whole : line.takeWhile (· != 58) ++ line.dropWhile (· != 58) = line :=
    List.takeWhile_append_dropWhile ..
  have size := congrArg List.length whole
  rw [List.length_append] at size
  unfold httpHdrSplit at split
  cases rest : line.dropWhile (· != 58) with
  | nil =>
      simp only [rest] at split
      cases split
      exact Nat.zero_le _
  | cons colon after =>
      have shorter := (List.dropWhile_suffix (l := after) fun c => c == 32 || c == 9).length_le
      simp only [rest, List.length_cons] at split size
      split at split
      · split at split
        · cases split
        · cases split
          omega
      · cases split
        omega

theorem findHeaderFrom_length {name value : Bytes} {fuel : Nat} {text : Bytes}
    (found : findHeaderFrom name fuel text = some value) : value.length ≤ text.length := by
  induction fuel generalizing text with
  | zero => cases found
  | succ fuel ih =>
      simp only [findHeaderFrom] at found
      split at found
      · cases found
      · rename_i line rest cut
        have size := strstr_length cut
        have later (deeper : findHeaderFrom name fuel rest = some value) :
            value.length ≤ text.length := by
          have bound := ih deeper
          omega
        split at found
        · split at found
          · rename_i val here
            cases found
            have bound := httpHdrSplit_length here
            omega
          · exact later found
        · exact later found

/-- A field value is part of the header block. -/
theorem findHeader_length {headers name value : Bytes} (found : findHeader headers name = some value) :
    value.length ≤ headers.length :=
  findHeaderFrom_length found

def parseStatusLine (line : Bytes) : Option Int :=
  if (ascii "HTTP/").isPrefixOf line then
    match strchr 32 line with
    | none => none
    | some sp =>
        let v := (strtol sp.tail).1
        if v < 100 ∨ v > 999 then none else some v
  else none

def statusIsInterim (status : Int) : Bool :=
  decide (status ≥ 100 ∧ status < 200 ∧ status ≠ 101)

def responseHasNoBody (status : Int) (headRequest : Bool) : Bool :=
  headRequest || decide (status = 204) || decide (status = 304)

def onlyOws (p : Bytes) : Bool :=
  p.dropWhile (fun c => c == 32 || c == 9) == []

end WolfCert.Http
