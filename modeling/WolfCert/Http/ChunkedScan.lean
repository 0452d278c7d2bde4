import WolfCert.Http.Chunked

/-!
# Resuming the chunk scan

A scan that stopped for want of bytes goes on, once more have arrived, as if it had started over; a
verdict once reached is the verdict on every longer input.
-/

namespace WolfCert.Http

open WolfCert.CLib

theorem crlfOffset_append {raw : Bytes} (more : Bytes) (found : crlfOffset raw + 1 < raw.length) :
    crlfOffset (raw ++ more) = crlfOffset raw := by
  induction raw with
  | nil => simp at found
  | cons a rest induction =>
      cases rest with
      | nil => simp [crlfOffset] at found
      | cons b rest =>
          simp only [crlfOffset, List.cons_append] at found ⊢
          split
          · rfl
          · rename_i other
            simp only [if_neg other, List.length_cons] at found
            have shorter : crlfOffset (b :: rest) + 1 < (b :: rest).length := by
              simp only [List.length_cons]
              omega
            simpa using induction shorter

theorem crlfOffset_le_append (raw more : Bytes) : crlfOffset raw ≤ crlfOffset (raw ++ more) := by
  induction raw with
  | nil => simp [crlfOffset]
  | cons a rest induction =>
      cases rest with
      | nil => simp [crlfOffset]
      | cons b rest =>
          simp only [crlfOffset, List.cons_append]
          split
          · exact Nat.le_refl _
          · simpa using induction

theorem crlfOffset_drop {raw : Bytes} {k : Nat} (reached : k ≤ crlfOffset raw) :
    crlfOffset raw = k + crlfOffset (raw.drop k) := by
  induction k generalizing raw with
  | zero => simp
  | succ k induction =>
      cases raw with
      | nil => simp [crlfOffset] at reached
      | cons a rest =>
          cases rest with
          | nil => simp [crlfOffset] at reached
          | cons b rest =>
              simp only [crlfOffset] at reached ⊢
              split at reached
              · omega
              · rename_i other
                have step : crlfOffset (b :: rest) = k + crlfOffset ((b :: rest).drop k) :=
                  induction (by omega)
                rw [if_neg other, step, List.drop_succ_cons]
                omega

theorem crlfOffset_lt {raw : Bytes} (nonempty : raw ≠ []) : crlfOffset raw < raw.length := by
  induction raw with
  | nil => exact absurd rfl nonempty
  | cons a rest induction =>
      cases rest with
      | nil => simp [crlfOffset]
      | cons b rest =>
          simp only [crlfOffset]
          split
          · simp
          · simpa using induction (by simp)

/-- A line end found stays where it is when more bytes arrive. -/
theorem findCrlf_append {raw : Bytes} {start : Nat} (more : Bytes)
    (found : (findCrlf raw start).found = true) : findCrlf (raw ++ more) start = findCrlf raw start := by
  simp only [findCrlf, decide_eq_true_eq] at found
  have inside : start ≤ raw.length := by omega
  have offset : crlfOffset (raw.drop start ++ more) = crlfOffset (raw.drop start) :=
    crlfOffset_append more (by simp only [List.length_drop]; omega)
  simp only [findCrlf, List.drop_append_of_le_length inside, offset, List.length_append,
    FindCrlf.mk.injEq, true_and, decide_eq_decide]
  omega

theorem findCrlf_ext {raw : Bytes} {i j : Nat}
    (same : (findCrlf raw i).index = (findCrlf raw j).index) : findCrlf raw i = findCrlf raw j := by
  simp only [findCrlf] at same ⊢
  rw [same]

/-- A search that found no line end may resume where it stopped. -/
theorem findCrlf_resume {raw : Bytes} {start : Nat} (more : Bytes) (inside : start ≤ raw.length) :
    findCrlf (raw ++ more) (findCrlf raw start).index = findCrlf (raw ++ more) start := by
  have reached := crlfOffset_le_append (raw.drop start) more
  have step := crlfOffset_drop reached
  have unread : (raw ++ more).drop (start + crlfOffset (raw.drop start)) =
      (raw.drop start ++ more).drop (crlfOffset (raw.drop start)) := by
    rw [← List.drop_drop, List.drop_append_of_le_length inside]
  apply findCrlf_ext
  simp only [findCrlf, List.drop_append_of_le_length inside, unread]
  omega

theorem parseChunkSize_append {raw : Bytes} {ri he : Nat} (more : Bytes) (inside : he ≤ raw.length) :
    parseChunkSize (raw ++ more) ri he = parseChunkSize raw ri he := by
  simp only [parseChunkSize, List.take_append_of_le_length inside]

theorem getD_append_left {raw : Bytes} {i : Nat} (more : Bytes) (inside : i < raw.length) :
    (raw ++ more).getD i 0 = raw.getD i 0 := by
  simp [List.getD_eq_getElem?_getD, List.getElem?_append_left inside]

/-- The cached line position is never past a line end: searching from it is searching from `pos`. -/
structure ChunkScan.Sound (raw : Bytes) (st : ChunkScan) : Prop where
  bound : st.crlf ≤ raw.length
  payload : st.chunk > 0 → st.crlf ≤ st.pos
  line : st.chunk = 0 → ∀ more, findCrlf (raw ++ more) (lineStart st) = findCrlf (raw ++ more) st.pos

theorem ChunkScan.start_sound (max : Nat) (raw : Bytes) : (ChunkScan.start max).Sound raw :=
  ⟨Nat.zero_le _, fun payload => by simp [ChunkScan.start] at payload, fun _ _ => rfl⟩

theorem ChunkScan.Sound.append {raw : Bytes} {st : ChunkScan} (sound : st.Sound raw) (more : Bytes) :
    st.Sound (raw ++ more) :=
  ⟨by simpa using Nat.le_add_right_of_le sound.bound, sound.payload,
    fun line more' => by simpa using sound.line line (more ++ more')⟩

theorem findCrlf_found {raw : Bytes} {start : Nat} (found : (findCrlf raw start).found = true) :
    (findCrlf raw start).index + 1 < raw.length := by
  simpa [findCrlf] using found

theorem findCrlf_le {raw : Bytes} {start : Nat} (inside : start ≤ raw.length) :
    (findCrlf raw start).index ≤ raw.length := by
  by_cases empty : raw.drop start = []
  · simpa [findCrlf, empty, crlfOffset] using inside
  · have offset := crlfOffset_lt empty
    simp only [List.length_drop] at offset
    simp only [findCrlf]
    omega

theorem findCrlf_ge (raw : Bytes) (start : Nat) : start ≤ (findCrlf raw start).index := by
  simp [findCrlf]

theorem chunkedTurn_payload {raw : Bytes} {st : ChunkScan} (payload : st.chunk > 0) :
    chunkedTurn raw st =
      if raw.length < st.pos + st.chunk + 2 then (some .more, st)
      else if raw.getD (st.pos + st.chunk) 0 ≠ 13 ∨ raw.getD (st.pos + st.chunk + 1) 0 ≠ 10 then
        (some .malformed, st)
      else (none, { st with pos := st.pos + st.chunk + 2, chunk := 0 }) := by
  have missing : (raw.length - st.pos < 2 ∨ st.chunk > raw.length - st.pos - 2) ↔
      raw.length < st.pos + st.chunk + 2 := by omega
  simp only [chunkedTurn, if_pos payload, missing]

theorem chunkedTurn_line {raw : Bytes} {st : ChunkScan} (line : st.chunk = 0) :
    chunkedTurn raw st =
      if (findCrlf raw (lineStart st)).found = false then
        (some .more, { st with crlf := (findCrlf raw (lineStart st)).index })
      else lineTurn raw st (findCrlf raw (lineStart st)).index := by
  have empty : ¬st.chunk > 0 := by omega
  simp only [chunkedTurn, if_neg empty]

theorem lineTurn_append {raw : Bytes} {st : ChunkScan} {index : Nat} (more : Bytes)
    (inside : index ≤ raw.length) : lineTurn (raw ++ more) st index = lineTurn raw st index := by
  simp only [lineTurn, parseChunkSize_append more inside]

theorem lineTurn_more {raw : Bytes} {st st' : ChunkScan} {index : Nat}
    (run : lineTurn raw st index = (some .more, st')) : False := by
  simp only [lineTurn] at run
  repeat' split at run
  all_goals cases run

theorem lineTurn_none {raw : Bytes} {st st' : ChunkScan} {index : Nat}
    (run : lineTurn raw st index = (none, st')) : st'.pos = index + 2 ∧ st'.crlf = index := by
  simp only [lineTurn] at run
  repeat' split at run
  all_goals cases run
  all_goals exact ⟨rfl, rfl⟩

/-- A turn that does not stop for want of bytes is the same turn on every longer input. -/
theorem chunkedTurn_append {raw : Bytes} {st st' : ChunkScan} {result : Option Framing}
    (more : Bytes) (run : chunkedTurn raw st = (result, st')) (decided : result ≠ some .more) :
    chunkedTurn (raw ++ more) st = (result, st') := by
  by_cases payload : st.chunk > 0
  · rw [chunkedTurn_payload payload] at run ⊢
    split at run
    · cases run
      exact absurd rfl decided
    · rename_i arrived
      have longer : ¬(raw ++ more).length < st.pos + st.chunk + 2 := by
        simp only [List.length_append]
        omega
      rw [if_neg longer, getD_append_left more (by omega), getD_append_left more (by omega)]
      exact run
  · have line : st.chunk = 0 := by omega
    rw [chunkedTurn_line line] at run ⊢
    split at run
    · cases run
      exact absurd rfl decided
    · rename_i ended
      have found : (findCrlf raw (lineStart st)).found = true := by simpa using ended
      rw [findCrlf_append more found, if_neg ended]
      rw [lineTurn_append more (Nat.le_of_lt (Nat.lt_of_succ_lt (findCrlf_found found)))]
      exact run

/-- A turn that stops for want of bytes only moves the cached line position. -/
theorem chunkedTurn_more {raw : Bytes} {st st' : ChunkScan} (sound : st.Sound raw)
    (unread : st.pos < raw.length) (run : chunkedTurn raw st = (some .more, st')) :
    st'.Sound raw ∧ st'.pos = st.pos ∧
      ∀ more, chunkedTurn (raw ++ more) st' = chunkedTurn (raw ++ more) st := by
  by_cases payload : st.chunk > 0
  · rw [chunkedTurn_payload payload] at run
    split at run
    · cases run
      exact ⟨sound, rfl, fun _ => rfl⟩
    · split at run <;> cases run
  · have line : st.chunk = 0 := by omega
    rw [chunkedTurn_line line] at run
    split at run
    · cases run
      have start : lineStart st ≤ raw.length := Nat.max_le.mpr ⟨Nat.le_of_lt unread, sound.bound⟩
      have stopped : lineStart st ≤ (findCrlf raw (lineStart st)).index := findCrlf_ge _ _
      have resumed : lineStart { st with crlf := (findCrlf raw (lineStart st)).index } =
          (findCrlf raw (lineStart st)).index :=
        Nat.max_eq_right (Nat.le_trans (Nat.le_max_left _ _) stopped)
      have resume : ∀ more, findCrlf (raw ++ more) (findCrlf raw (lineStart st)).index =
          findCrlf (raw ++ more) (lineStart st) := fun more => findCrlf_resume more start
      refine ⟨⟨findCrlf_le start, fun full => absurd full payload, fun _ more => ?_⟩, rfl,
        fun more => ?_⟩
      · rw [resumed, resume more, sound.line line more]
      · have line' : ({ st with crlf := (findCrlf raw (lineStart st)).index } : ChunkScan).chunk = 0 :=
          line
        rw [chunkedTurn_line line, chunkedTurn_line line', resumed, resume more]
        rfl
    · exact (lineTurn_more run).elim

theorem chunkedTurn_none {raw : Bytes} {st st' : ChunkScan} (sound : st.Sound raw)
    (run : chunkedTurn raw st = (none, st')) :
    st'.Sound raw ∧ st.pos < st'.pos ∧ st'.pos ≤ raw.length := by
  by_cases payload : st.chunk > 0
  · rw [chunkedTurn_payload payload] at run
    split at run
    · cases run
    · split at run
      · cases run
      · cases run
        have behind := sound.payload payload
        refine ⟨⟨sound.bound, fun full => absurd full (by simp), fun _ more => ?_⟩,
          by dsimp only; omega, by dsimp only; omega⟩
        simp only [lineStart]
        rw [Nat.max_eq_left (by omega)]
  · have line : st.chunk = 0 := by omega
    rw [chunkedTurn_line line] at run
    split at run
    · cases run
    · rename_i ended
      have found : (findCrlf raw (lineStart st)).index + 1 < raw.length :=
        findCrlf_found (by simpa using ended)
      have reached := findCrlf_ge raw (lineStart st)
      have behind : st.pos ≤ lineStart st := Nat.le_max_left _ _
      obtain ⟨pos, crlf⟩ := lineTurn_none run
      refine ⟨⟨by omega, fun _ => by omega, fun _ more => ?_⟩, by omega, by omega⟩
      simp only [lineStart]
      rw [Nat.max_eq_left (by omega)]

theorem chunkedTurn_complete {raw : Bytes} {st st' : ChunkScan}
    (run : chunkedTurn raw st = (some .complete, st')) : st'.pos ≤ raw.length := by
  by_cases payload : st.chunk > 0
  · rw [chunkedTurn_payload payload] at run
    repeat' split at run
    all_goals cases run
  · rw [chunkedTurn_line (by omega)] at run
    split at run
    · cases run
    · rename_i ended
      have found : (findCrlf raw (lineStart st)).index + 1 < raw.length :=
        findCrlf_found (by simpa using ended)
      simp only [lineTurn] at run
      repeat' split at run
      all_goals cases run
      exact found

theorem chunkedLoop_fuel {raw : Bytes} {st : ChunkScan} {fuel fuel' : Nat} (sound : st.Sound raw)
    (enough : raw.length - st.pos ≤ fuel) (enough' : raw.length - st.pos ≤ fuel') :
    chunkedLoop raw fuel st = chunkedLoop raw fuel' st := by
  induction fuel generalizing st fuel' with
  | zero =>
      have ended : ¬st.pos < raw.length := by omega
      cases fuel' with
      | zero => rfl
      | succ fuel' => simp [chunkedLoop, ended]
  | succ fuel induction =>
      cases fuel' with
      | zero =>
          have ended : ¬st.pos < raw.length := by omega
          simp [chunkedLoop, ended]
      | succ fuel' =>
          simp only [chunkedLoop]
          split
          · split
            · rfl
            · rename_i stepped
              obtain ⟨sound', forward, -⟩ := chunkedTurn_none sound stepped
              exact induction sound' (by omega) (by omega)
          · rfl

/-- The scan as its own recursion. -/
theorem httpChunkedComplete_eq {raw : Bytes} {st : ChunkScan} (sound : st.Sound raw) :
    httpChunkedComplete raw st =
      if st.pos < raw.length then
        match chunkedTurn raw st with
        | (some verdict, st') => (verdict, st')
        | (none, st') => httpChunkedComplete raw st'
      else (.more, st) := by
  by_cases unread : st.pos < raw.length
  · obtain ⟨fuel, size⟩ : ∃ fuel, raw.length - st.pos = fuel + 1 :=
      ⟨raw.length - st.pos - 1, by omega⟩
    simp only [httpChunkedComplete, size, chunkedLoop, if_pos unread]
    cases turned : chunkedTurn raw st with
    | mk result next =>
        cases result with
        | some verdict => rfl
        | none =>
            obtain ⟨sound', forward, -⟩ := chunkedTurn_none sound turned
            have enough : raw.length - next.pos ≤ fuel := by omega
            exact chunkedLoop_fuel sound' enough (Nat.le_refl _)
  · have size : raw.length - st.pos = 0 := by omega
    simp [httpChunkedComplete, size, chunkedLoop, unread]

/-- A scan that asks for more may go on from where it stopped: on every longer input it then ends as
a scan from where it started. Any other verdict, and where it was reached, is final. -/
theorem httpChunkedComplete_resume {raw : Bytes} {st st' : ChunkScan} {verdict : Framing}
    (sound : st.Sound raw) (run : httpChunkedComplete raw st = (verdict, st')) :
    (verdict = .more → st'.Sound raw ∧
      ∀ more, httpChunkedComplete (raw ++ more) st' = httpChunkedComplete (raw ++ more) st) ∧
    (verdict ≠ .more → ∀ more, httpChunkedComplete (raw ++ more) st = (verdict, st')) := by
  generalize size : raw.length - st.pos = count
  induction count using Nat.strongRecOn generalizing st with
  | ind count induction =>
      rw [httpChunkedComplete_eq sound] at run
      by_cases unread : st.pos < raw.length
      · have unread' : ∀ more, st.pos < (raw ++ more).length := fun more => by
          simp only [List.length_append]
          omega
        rw [if_pos unread] at run
        cases turned : chunkedTurn raw st with
        | mk result next =>
            rw [turned] at run
            cases result with
            | none =>
                obtain ⟨sound', forward, -⟩ := chunkedTurn_none sound turned
                have same : ∀ more, httpChunkedComplete (raw ++ more) st =
                    httpChunkedComplete (raw ++ more) next := by
                  intro more
                  rw [httpChunkedComplete_eq (sound.append more), if_pos (unread' more),
                    chunkedTurn_append more turned (by simp)]
                simp only [same]
                exact induction _ (by omega) sound' run rfl
            | some found =>
                cases run
                constructor
                · rintro rfl
                  obtain ⟨sound', pos, same⟩ := chunkedTurn_more sound unread turned
                  refine ⟨sound', fun more => ?_⟩
                  rw [httpChunkedComplete_eq (sound'.append more),
                    httpChunkedComplete_eq (sound.append more), same more, pos,
                    if_pos (unread' more), if_pos (unread' more)]
                · intro decided more
                  rw [httpChunkedComplete_eq (sound.append more), if_pos (unread' more),
                    chunkedTurn_append more turned (by simpa using decided)]
      · rw [if_neg unread] at run
        cases run
        exact ⟨fun _ => ⟨sound, fun _ => rfl⟩, fun decided => absurd rfl decided⟩

/-- A complete body ends inside the bytes scanned. -/
theorem httpChunkedComplete_pos {raw : Bytes} {st st' : ChunkScan} (sound : st.Sound raw)
    (run : httpChunkedComplete raw st = (.complete, st')) : st'.pos ≤ raw.length := by
  generalize size : raw.length - st.pos = count
  induction count using Nat.strongRecOn generalizing st with
  | ind count induction =>
      rw [httpChunkedComplete_eq sound] at run
      split at run
      · cases turned : chunkedTurn raw st with
        | mk result next =>
            rw [turned] at run
            cases result with
            | none =>
                obtain ⟨sound', forward, -⟩ := chunkedTurn_none sound turned
                exact induction _ (by omega) sound' run rfl
            | some found =>
                cases run
                exact chunkedTurn_complete turned
      · cases run

/-- The scanner state stands for a scan of `raw` from its start. -/
structure ChunkScan.Continues (raw : Bytes) (max : Nat) (st : ChunkScan) : Prop where
  sound : st.Sound raw
  same : ∀ more, httpChunkedComplete (raw ++ more) st = httpChunkedComplete (raw ++ more) (.start max)

theorem ChunkScan.Continues.start (raw : Bytes) (max : Nat) : (ChunkScan.start max).Continues raw max :=
  ⟨ChunkScan.start_sound max raw, fun _ => rfl⟩

theorem ChunkScan.Continues.append {raw : Bytes} {max : Nat} {st : ChunkScan}
    (continues : st.Continues raw max) (data : Bytes) : st.Continues (raw ++ data) max where
  sound := continues.sound.append data
  same more := by
    rw [List.append_assoc]
    exact continues.same (data ++ more)

/-- A scan that asks for more still stands for the scan from the start; any other verdict is that of
every longer input. -/
theorem ChunkScan.Continues.verdict {raw : Bytes} {max : Nat} {st st' : ChunkScan} {verdict : Framing}
    (continues : st.Continues raw max) (run : httpChunkedComplete raw st = (verdict, st')) :
    (verdict = .more → st'.Continues raw max) ∧
    (verdict ≠ .more → ∀ more, httpChunkedComplete (raw ++ more) (.start max) = (verdict, st')) := by
  obtain ⟨resumes, stops⟩ := httpChunkedComplete_resume continues.sound run
  refine ⟨fun more => ?_, fun final more => ?_⟩
  · obtain ⟨sound, same⟩ := resumes more
    exact ⟨sound, fun more => (same more).trans (continues.same more)⟩
  · rw [← continues.same, stops final]

/-! ## The cap -/

/-- With a cap set, what the chunk lines have declared is within it. -/
def ChunkScan.Capped (st : ChunkScan) : Prop := st.max ≠ 0 → st.total ≤ st.max

theorem lineTurn_capped {raw : Bytes} {st st' : ChunkScan} {index : Nat} {result : Option Framing}
    (capped : st.Capped) (run : lineTurn raw st index = (result, st')) :
    st'.Capped ∧ st'.max = st.max := by
  simp only [lineTurn, overCap, decide_eq_true_eq] at run
  repeat' split at run
  all_goals cases run
  all_goals first
    | exact ⟨capped, rfl⟩
    | skip
  rename_i within nonzero
  refine ⟨fun set => ?_, rfl⟩
  have below := capped set
  simp only [not_and, Nat.not_lt] at within
  have room := within set
  dsimp only at set below room ⊢
  omega

theorem chunkedTurn_capped {raw : Bytes} {st st' : ChunkScan} {result : Option Framing}
    (capped : st.Capped) (run : chunkedTurn raw st = (result, st')) : st'.Capped ∧ st'.max = st.max := by
  by_cases payload : st.chunk > 0
  · rw [chunkedTurn_payload payload] at run
    repeat' split at run
    all_goals cases run
    all_goals exact ⟨capped, rfl⟩
  · rw [chunkedTurn_line (by omega)] at run
    split at run
    · cases run
      exact ⟨capped, rfl⟩
    · exact lineTurn_capped capped run

theorem httpChunkedComplete_capped {raw : Bytes} {st : ChunkScan} (capped : st.Capped) :
    (httpChunkedComplete raw st).2.Capped ∧ (httpChunkedComplete raw st).2.max = st.max := by
  unfold httpChunkedComplete
  generalize raw.length - st.pos = fuel
  induction fuel generalizing st with
  | zero => exact ⟨capped, rfl⟩
  | succ fuel ih =>
      simp only [chunkedLoop]
      split
      · cases turned : chunkedTurn raw st with
        | mk result next =>
            obtain ⟨capped', same⟩ := chunkedTurn_capped capped turned
            cases result with
            | some verdict => exact ⟨capped', same⟩
            | none =>
                obtain ⟨later, kept⟩ := ih capped'
                exact ⟨later, kept.trans same⟩
      · exact ⟨capped, rfl⟩

/-! ## One state for a growing buffer -/

/-- The results of the scan over prefixes of `raw`, one state throughout, up to the first that does not
ask for more. -/
def feed (raw : Bytes) : List Nat → ChunkScan → List (Framing × ChunkScan)
  | [], _ => []
  | n :: cuts, st =>
      let result := httpChunkedComplete (raw.take n) st
      result :: if result.1 = .more then feed raw cuts result.2 else []

/-- The results up to the first that does not ask for more. -/
def untilSettled : List (Framing × ChunkScan) → List (Framing × ChunkScan)
  | [] => []
  | result :: later => result :: if result.1 = .more then untilSettled later else []

theorem mem_of_mem_untilSettled {result : Framing × ChunkScan} {results : List (Framing × ChunkScan)}
    (member : result ∈ untilSettled results) : result ∈ results := by
  induction results with
  | nil => exact member
  | cons first later ih =>
      rw [untilSettled, List.mem_cons] at member
      rcases member with rfl | member
      · exact List.mem_cons_self
      · split at member
        · exact List.mem_cons_of_mem _ (ih member)
        · cases member

theorem feed_continues {raw : Bytes} {max : Nat} {st : ChunkScan} {n : Nat} {cuts : List Nat}
    (continues : st.Continues (raw.take n) max) (increasing : (n :: cuts).Pairwise (· ≤ ·)) :
    feed raw cuts st =
      untilSettled (cuts.map fun n => httpChunkedComplete (raw.take n) (.start max)) := by
  induction cuts generalizing n st with
  | nil => rfl
  | cons k cuts ih =>
      obtain ⟨least, increasing⟩ := List.pairwise_cons.mp increasing
      obtain ⟨data, longer⟩ : raw.take n <+: raw.take k :=
        List.take_prefix_take_left (least k List.mem_cons_self)
      have continues : st.Continues (raw.take k) max := longer ▸ continues.append data
      have same := continues.same []
      rw [List.append_nil] at same
      simp only [feed, List.map_cons, untilSettled, same]
      cases fresh : httpChunkedComplete (raw.take k) (.start max) with
      | mk verdict next =>
          by_cases waits : verdict = .more
          · subst waits
            rw [fresh] at same
            simp only [if_true, ih ((continues.verdict same).1 rfl) increasing]
          · simp only [if_neg waits]

/-- A scan that is resumed as the buffer grows gives, call by call, what a fresh scan of that much of the
buffer gives; with a cap, it never declares more. -/
theorem feed_fresh (raw : Bytes) (max : Nat) (cuts : List Nat) (increasing : cuts.Pairwise (· ≤ ·)) :
    feed raw cuts (.start max) =
        untilSettled (cuts.map fun n => httpChunkedComplete (raw.take n) (.start max)) ∧
      (max ≠ 0 → ∀ result ∈ feed raw cuts (.start max), result.2.total ≤ max) := by
  have same : feed raw cuts (.start max) =
      untilSettled (cuts.map fun n => httpChunkedComplete (raw.take n) (.start max)) :=
    feed_continues (n := 0) (.start _ max) (List.pairwise_cons.mpr ⟨fun _ _ => Nat.zero_le _, increasing⟩)
  refine ⟨same, fun set result inside => ?_⟩
  obtain ⟨n, -, rfl⟩ := List.mem_map.mp (mem_of_mem_untilSettled (same ▸ inside))
  obtain ⟨capped, kept⟩ : (httpChunkedComplete (raw.take n) (.start max)).2.Capped ∧ _ :=
    httpChunkedComplete_capped fun _ => Nat.zero_le _
  have cap : (httpChunkedComplete (raw.take n) (.start max)).2.max = max := kept
  have below := capped (by rw [cap]; exact set)
  rwa [cap] at below

def exampleChunked : Bytes := ascii "3\r\nabc\r\n0\r\n\r\n"

/-- The cuts fall inside a size line, between CR and LF, and inside the payload. -/
theorem feed_fresh_cuts :
    (feed exampleChunked [1, 2, 5, 9, 13] (.start 3)).map (fun result => (result.1, result.2.pos)) =
      [(.more, 0), (.more, 0), (.more, 3), (.more, 8), (.complete, 13)] ∧
    feed exampleChunked [1, 2, 5, 9, 13] (.start 3) = untilSettled ([1, 2, 5, 9, 13].map fun n =>
      httpChunkedComplete (exampleChunked.take n) (.start 3)) :=
  ⟨by decide +kernel, (feed_fresh exampleChunked 3 [1, 2, 5, 9, 13] (by decide)).1⟩

end WolfCert.Http
