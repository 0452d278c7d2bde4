import WolfCert.CLib.Bytes

/-!
# IP literals

`wolfcert_parse_ip` of `internal.c`.
-/

namespace WolfCert

open WolfCert.CLib

def parseOctet (s : Bytes) : Option (UInt8 × Bytes) :=
  let digits := (s.take 3).takeWhile isDigit
  let v := digitsValue digits
  if digits = [] ∨ v > 255 ∨ (digits.length > 1 ∧ charAt s = 48) then none
  else some (UInt8.ofNat v, s.drop digits.length)

/-- The octet loop of `parse_ipv4`; a dot stands before every octet but the first. -/
def parseOctets : Nat → Bytes → Bytes → Option (Bytes × Bytes)
  | 0, s, out => some (out, s)
  | n + 1, s, out =>
      if out ≠ [] ∧ charAt s ≠ 46 then none
      else
        match parseOctet (if out ≠ [] then s.tail else s) with
        | none => none
        | some (v, rest) => parseOctets n rest (out ++ [v])

def parseIpv4 (s : Bytes) : Option Bytes :=
  match parseOctets 4 s [] with
  | some (out, []) => some out
  | _ => none

def groupIsIpv4 (s : Bytes) : Bool :=
  (s.takeWhile (· != 58)).any (· == 46)

/-- At most `n` more hexadecimal digits: the value, how many were read, and the rest. -/
def hexGroup : Nat → Bytes → Nat → Nat → Nat × Nat × Bytes
  | 0, s, val, count => (val, count, s)
  | _ + 1, [], val, count => (val, count, [])
  | n + 1, c :: rest, val, count =>
      match hexDigit c with
      | some d => hexGroup n rest (val * 16 + d) (count + 1)
      | none => (val, count, c :: rest)

/-- The group loop of `parse_ipv6`: the bytes filled so far and where the `::` run expands. -/
def ipv6Groups : Nat → Bytes → Bytes → Option Nat → Option (Bytes × Option Nat)
  | 0, _, _, _ => none
  | fuel + 1, s, buf, gap =>
      if s = [] then some (buf, gap)
      else if groupIsIpv4 s then
        if buf.length > 12 then none
        else (parseIpv4 s).map fun quad => (buf ++ quad, gap)
      else
        let (val, n, s) := hexGroup 4 s 0 0
        if n = 0 ∨ buf.length > 14 then none
        else
          let buf := buf ++ [UInt8.ofNat (val / 256), UInt8.ofNat (val % 256)]
          match s with
          | [] => some (buf, gap)
          | c :: s =>
              if c ≠ 58 then none
              else if charAt s = 58 then
                if gap.isSome then none
                else ipv6Groups fuel s.tail buf (some buf.length)
              else if s = [] then none
              else ipv6Groups fuel s buf gap

def parseIpv6 (s : Bytes) : Option Bytes :=
  let start : Option (Bytes × Option Nat) :=
    if charAt s = 58 then
      if charAt s.tail ≠ 58 then none else some (s.drop 2, some 0)
    else some (s, none)
  match start with
  | none => none
  | some (s, gap) =>
      match ipv6Groups (s.length + 1) s [] gap with
      | none => none
      | some (buf, none) => if buf.length ≠ 16 then none else some buf
      | some (buf, some gap) =>
          if buf.length ≥ 16 then none
          else some (buf.take gap ++ List.replicate (16 - buf.length) 0 ++ buf.drop gap)

def parseIp (s : Bytes) : Option Bytes :=
  match parseIpv4 s with
  | some out => some out
  | none => parseIpv6 s

example : parseIp (ascii "::ffff:10.0.0.1") =
    some [0, 0, 0, 0, 0, 0, 0, 0, 0, 0, 255, 255, 10, 0, 0, 1] := by decide
example : parseIp (ascii "10.0.0.01") = none := by decide

end WolfCert
