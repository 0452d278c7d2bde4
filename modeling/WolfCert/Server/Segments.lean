import WolfCert.Server.ChunkedReader

/-!
# Segmentation of a connection

What two readings of one stream have in common, whatever each receive gets. Memory is not scarce here.
-/

namespace WolfCert.Server

open WolfCert.CLib WolfCert.Http

variable {c c' : Conn}

/-! ## Header lines -/

/-- The line is no Content-Length, or its value is more than white space. -/
def StatesLength (line : Bytes) : Prop :=
  httpHdrIs line (ascii "Content-Length") = true →
    ∀ value, httpHdrSplit line = .value value → ∃ b ∈ value, isSpace b = false

instance (line : Bytes) : Decidable (StatesLength line) :=
  match split : httpHdrSplit line with
  | .malformed => isTrue fun _ _ found => by simp [split] at found
  | .value value =>
      decidable_of_iff (httpHdrIs line (ascii "Content-Length") = true → ∃ b ∈ value, isSpace b = false)
        (by simp [StatesLength, split])

theorem cString_append_of_not_mem {value : Bytes} (plain : 0 ∉ value) (more : Bytes) :
    cString (value ++ more) = value ++ cString more :=
  List.takeWhile_append_of_pos (bne_of_not_mem plain)

/-- With memory at hand the program does the same on every connection, and nothing to it. -/
def Blind {α : Type} (p : Prog Conn Rc α) : Prop :=
  ∃ result, ∀ c : Conn, c.memory = [] → p c = some (result, c)

theorem Blind.same {α : Type} {p : Prog Conn Rc α} {result : Except Rc α} {d : Conn} (blind : Blind p)
    (run : p c = some (result, c')) (free : c.memory = []) (free' : d.memory = []) :
    c' = c ∧ p d = some (result, d) := by
  obtain ⟨always, runs⟩ := blind
  rw [runs c free] at run
  cases run
  exact ⟨rfl, runs d free'⟩

theorem Blind.pure {α : Type} (value : α) : Blind (pure value) := ⟨.ok value, fun _ _ => rfl⟩

theorem Blind.fail {α : Type} (rc : Rc) : Blind (Prog.fail rc : Prog Conn Rc α) :=
  ⟨.error rc, fun _ _ => rfl⟩

theorem Blind.require (condition : Prop) [Decidable condition] (rc : Rc) :
    Blind (Prog.require condition rc) := by
  unfold Prog.require
  split
  · exact .pure ()
  · exact .fail rc

theorem Blind.alloc : Blind (Prog.call Conn.alloc) := by
  refine ⟨.ok true, fun c free => ?_⟩
  simp [Prog.call, Conn.alloc_free free]

theorem Blind.bind {α β : Type} {first : Prog Conn Rc α} {next : α → Prog Conn Rc β}
    (blind : Blind first) (rest : ∀ value, Blind (next value)) : Blind (first >>= next) := by
  obtain ⟨result, runs⟩ := blind
  cases result with
  | error rc =>
      exact ⟨.error rc, fun c free => Prog.bind_of_error (runs c free)⟩
  | ok value =>
      obtain ⟨result, ends⟩ := rest value
      exact ⟨result, fun c free => (Prog.bind_of_ok (runs c free)).trans (ends c free)⟩

theorem Blind.allocate : Blind allocate := .bind .alloc fun _ => .require _ _

theorem receiveHead_memory (cap fuel : Nat) (buf : Bytes) :
    (receiveHead cap fuel buf).Respects fun c c' => c'.memory = c.memory := by
  have refl : ∀ c : Conn, c.memory = c.memory := fun _ => rfl
  induction fuel generalizing buf with
  | zero => exact .pure refl _
  | succ fuel ih =>
      refine .ite (fun _ => .bind ?_ (fun first second => second.trans first) fun data =>
        .ite (fun _ => .pure refl _) fun _ => ih _) fun _ => .pure refl _
      refine .callMap fun c => ?_
      split <;> rfl

/-- The header is received unless the stream ends before the blank line and the end of the buffer. -/
theorem receiveHead_cases {cap fuel : Nat} {buf : Bytes} (room : buf.length ≤ cap)
    (enough : cap - buf.length ≤ fuel) (unseen : strstr crlfCrlf (cString buf) = none) :
    (∃ buf' c', receiveHead cap fuel buf c = some (.ok buf', c')) ∨
      strstr crlfCrlf (cString (buf ++ c.rest)) = none ∧ (buf ++ c.rest).length < cap := by
  induction fuel generalizing buf c with
  | zero => exact .inl ⟨buf, c, rfl⟩
  | succ fuel ih =>
      simp only [receiveHead, Prog.ite_apply]
      split
      · by_cases ended : c.rest = []
        · rw [ended, List.append_nil]
          exact .inr ⟨unseen, ‹_›⟩
        · obtain ⟨data, c₁, received⟩ := recvSome_some (cap - buf.length) ended
          obtain ⟨arrived, short, some, -⟩ := recvSome_ok received
          rw [Prog.bind_of_ok received, Prog.ite_apply]
          split
          · exact .inl ⟨_, _, rfl⟩
          · rename_i absent
            have size : 0 < data.length := List.length_pos_iff.mpr (some (by omega))
            have stream : buf ++ c.rest = buf ++ data ++ c₁.rest := by rw [arrived, List.append_assoc]
            rw [stream]
            refine ih ?_ ?_ (by simpa using absent)
            all_goals
              rw [List.length_append]
              omega
      · exact .inl ⟨buf, c, rfl⟩

theorem recvLeft_some {fuel left : Nat} (body : Bytes) (enough : left ≤ fuel)
    (within : left ≤ c.rest.length) :
    ∃ body' c', recvLeft fuel body left c = some (.ok body', c') ∧ c'.memory = c.memory := by
  induction fuel generalizing body left c with
  | zero => exact ⟨body, c, rfl, rfl⟩
  | succ fuel ih =>
      simp only [recvLeft, Prog.ite_apply]
      split
      · exact ⟨body, c, rfl, rfl⟩
      · rename_i asked
        have more : c.rest ≠ [] := by
          rintro ended
          simp [ended] at within
          omega
        obtain ⟨data, c₁, received⟩ := recvSome_some left more
        obtain ⟨arrived, short, some, memory⟩ := recvSome_ok received
        have size : 0 < data.length := List.length_pos_iff.mpr (some asked)
        rw [arrived, List.length_append] at within
        rw [Prog.bind_of_ok received, ← memory]
        exact ih _ (by omega) (by omega)

/-- A stream that begins with a chunked body is read as that body. -/
structure ChunkedFront (maxBytes : Nat) (later body : Bytes) (size : Nat) : Prop where
  within : size ≤ later.length
  limit : size ≤ rawMax maxBytes
  complete : ∃ scan, httpChunkedComplete (later.take size) (.start maxBytes) = (.complete, scan) ∧
    scan.pos = size
  decoded : decodeChunks (later.take size) = .ok body
  short : body.length ≤ maxBytes

theorem ChunkedFront.outcome {maxBytes size : Nat} {later body : Bytes}
    (front : ChunkedFront maxBytes later body size) :
    chunkedOutcome maxBytes later = .ok (body, size) := by
  obtain ⟨scan, complete, pos⟩ := front.complete
  have settled := ((ChunkScan.Continues.start (later.take size) maxBytes).verdict complete).2 (by decide)
  have limit : (later.take size).length ≤ rawMax maxBytes := by
    have room := front.limit
    rw [List.length_take]
    omega
  have decoded : decodeWithin maxBytes (later.take size) = .ok body := by
    simp only [decodeWithin, front.decoded, if_pos front.short]
  have outcome := chunkedOutcome_settled limit settled (by decide) (later.drop size)
  rwa [List.take_append_drop, decoded, pos] at outcome

/-- The request was read without a byte of what is behind it, and its length was no blank field. -/
def CleanRead (c : Conn) (trace : ReadTrace) (c' : Conn) : Prop :=
  c'.rest = c.rest.drop (trace.bodyStart + trace.bodySize) ∧ ∀ line ∈ trace.lines, StatesLength line

/-- A request the server read, with the connection before and after. -/
structure Served where
  before : Conn
  request : ServerRequest
  trace : ReadTrace
  after : Conn
deriving DecidableEq, Repr

def Served.Clean (served : Served) : Prop := CleanRead served.before served.trace served.after

instance (served : Served) : Decidable served.Clean :=
  inferInstanceAs (Decidable (_ ∧ _))

end WolfCert.Server
