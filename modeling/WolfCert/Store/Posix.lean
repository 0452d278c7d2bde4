import WolfCert.CLib.Files
import WolfCert.Errors

/-!
# The POSIX file store

`posix_write` of `store.c`: a temporary file beside the target, filled, synced and moved over it. The
file system after every system call is kept, so that a statement can speak of each step in between.
-/

namespace WolfCert.Store

open WolfCert.CLib

variable {π ι σ : Type} [DecidableEq π] [DecidableEq ι]

inductive WriteCall where
  | wrote (n : Nat)
  | eintr
  | failed
deriving DecidableEq, Repr

/-- The operating system: which entry a path names, and how each call ends. `mkstemp` answers with
the name it chose and the inode it created; `true` is a call that succeeded. -/
structure Os (π ι σ : Type) where
  resolve : Bytes → π
  alloc : σ → Nat → Bool × σ
  mkstemp : Files π ι → σ → Bytes → Option (Bytes × ι) × σ
  fchmod : σ → Nat → Bool × σ
  write : σ → Bytes → WriteCall × σ
  fsync : σ → Bool × σ
  close : σ → Bool × σ
  rename : σ → Bytes → Bytes → Bool × σ

/-- `mkstemp` creates a file that was not there, under a name longer than the path it was made
from; a write that does not fail takes some of what it was offered. -/
structure Os.Lawful (os : Os π ι σ) : Prop where
  fresh : ∀ fs w template tmp inode w', os.mkstemp fs w template = (some (tmp, inode), w') →
    fs.Fresh (os.resolve tmp) inode
  apart : ∀ fs w path tmp inode w',
    os.mkstemp fs w (path ++ ascii ".XXXXXX") = (some (tmp, inode), w') →
    os.resolve tmp ≠ os.resolve path
  progress : ∀ w buf n w', buf ≠ [] → os.write w buf = (.wrote n, w') → 0 < n ∧ n ≤ buf.length

/-- The file system now and after every call so far, newest first; `interrupted` counts the writes
that returned EINTR. -/
structure Disk (π ι σ : Type) where
  fs : Files π ι
  log : List (Files π ι)
  interrupted : Nat
  world : σ

/-- A system call that ended: the file system it left is noted. -/
def Disk.after (d : Disk π ι σ) (fs : Files π ι) (world : σ) : Disk π ι σ :=
  { d with fs, log := fs :: d.log, world }

def posixJoin (root key : Bytes) : Bytes := root ++ [47] ++ key

/-- The write loop; it runs out of `fuel` without a result. -/
def writeAll (os : Os π ι σ) (inode : ι) (data : Bytes) :
    Nat → Nat → Disk π ι σ → Option Bool × Disk π ι σ
  | 0, off, d => if off < data.length then (none, d) else (some true, d)
  | fuel + 1, off, d =>
      if off < data.length then
        match os.write d.world (data.drop off) with
        | (.wrote n, w) =>
            writeAll os inode data fuel (off + n)
              (d.after (d.fs.append inode ((data.drop off).take n)) w)
        | (.eintr, w) =>
            writeAll os inode data fuel off { d.after d.fs w with interrupted := d.interrupted + 1 }
        | (.failed, w) => (some false, d.after d.fs w)
      else (some true, d)

/-- `unlink`, which succeeds. -/
def unlinkTmp (os : Os π ι σ) (tmp : Bytes) (d : Disk π ι σ) : Rc × Disk π ι σ :=
  (.errIo, d.after (d.fs.unlink (os.resolve tmp)) d.world)

/-- The label `fail`: the result of this `close` is not looked at. -/
def closeAndUnlink (os : Os π ι σ) (tmp : Bytes) (d : Disk π ι σ) : Rc × Disk π ι σ :=
  unlinkTmp os tmp (d.after d.fs (os.close d.world).2)

/-- From `fsync` on. -/
def posixCommit (os : Os π ι σ) (tmp path : Bytes) (d : Disk π ι σ) : Rc × Disk π ι σ :=
  match os.fsync d.world with
  | (false, w) => closeAndUnlink os tmp (d.after d.fs w)
  | (true, w) =>
      let d := d.after d.fs w
      match os.close d.world with
      | (false, w) => unlinkTmp os tmp (d.after d.fs w)
      | (true, w) =>
          let d := d.after d.fs w
          match os.rename d.world tmp path with
          | (false, w) => unlinkTmp os tmp (d.after d.fs w)
          | (true, w) => (.ok, d.after (d.fs.rename (os.resolve tmp) (os.resolve path)) w)

/-- From `fchmod` on. -/
def posixFill (os : Os π ι σ) (fuel : Nat) (tmp path : Bytes) (inode : ι) (data : Bytes)
    (sensitive : Bool) (d : Disk π ι σ) : Option Rc × Disk π ι σ :=
  match os.fchmod d.world (if sensitive then 0o600 else 0o644) with
  | (false, w) =>
      let (rc, d) := closeAndUnlink os tmp (d.after d.fs w)
      (some rc, d)
  | (true, w) =>
      match writeAll os inode data fuel 0 (d.after d.fs w) with
      | (none, d) => (none, d)
      | (some false, d) =>
          let (rc, d) := closeAndUnlink os tmp d
          (some rc, d)
      | (some true, d) =>
          let (rc, d) := posixCommit os tmp path d
          (some rc, d)

/-- A result `none` has not returned after `fuel` turns of the write loop. -/
def posixWrite (os : Os π ι σ) (fuel : Nat) (root key data : Bytes) (sensitive : Bool)
    (d : Disk π ι σ) : Option Rc × Disk π ι σ :=
  let path := posixJoin root key
  match os.alloc d.world (path.length + 1) with
  | (false, w) => (some .errMemory, { d with world := w })
  | (true, w) =>
      match os.alloc w (path.length + 8) with
      | (false, w) => (some .errMemory, { d with world := w })
      | (true, w) =>
          match os.mkstemp d.fs w (path ++ ascii ".XXXXXX") with
          | (none, w) => (some .errIo, d.after d.fs w)
          | (some (tmp, inode), w) =>
              posixFill os fuel tmp path inode data sensitive
                (d.after (d.fs.create (os.resolve tmp) inode) w)

/-! ## Atomicity -/

/-- What holds of a write of `data` to the entry `target`. At every step the target reads as before
or as the whole data, and beside it at most one entry differs, one that did not exist before. Once the
write has returned, no entry but the target has changed, and that one was replaced by the data if and
only if the result is OK. -/
structure AtomicWrite (before : Files π ι) (target : π) (data : Bytes) (result : Option Rc)
    (d : Disk π ι σ) : Prop where
  steps : ∃ tmp : Option π, (∀ p ∈ tmp, before.names p = none) ∧ ∀ fs ∈ d.log,
    (fs.read target = before.read target ∨ fs.read target = some data) ∧
      ∀ other, other ≠ target → tmp ≠ some other → fs.read other = before.read other
  placed : ∀ rc, result = some rc →
    (rc = .ok ↔ d.fs.names target ≠ before.names target ∧ d.fs.read target = some data)
  kept : ∀ rc, result = some rc → rc ≠ .ok → d.fs.read target = before.read target
  others : ∀ rc, result = some rc → ∀ other, other ≠ target →
    d.fs.names other = before.names other ∧ d.fs.read other = before.read other

/-- The temporary file holds `content`, and has only grown. -/
structure Staging (before : Files π ι) (tmp : π) (inode : ι) (content : Bytes) (d : Disk π ι σ) :
    Prop where
  now : d.fs = before.staged tmp inode content
  log : ∀ fs ∈ d.log, fs = before ∨ ∃ part, fs = before.staged tmp inode part

section Staging

variable {before : Files π ι} {tmp target : π} {inode : ι} {content data : Bytes} {d d' : Disk π ι σ}
  {os : Os π ι σ}

theorem Staging.after (staging : Staging before tmp inode content d) (w : σ) :
    Staging before tmp inode content (d.after d.fs w) := by
  refine ⟨staging.now, fun fs logged => ?_⟩
  rcases List.mem_cons.mp logged with rfl | earlier
  · exact .inr ⟨content, staging.now⟩
  · exact staging.log fs earlier

theorem Staging.append (staging : Staging before tmp inode content d) (more : Bytes) (w : σ) :
    Staging before tmp inode (content ++ more) (d.after (d.fs.append inode more) w) := by
  have grown : d.fs.append inode more = before.staged tmp inode (content ++ more) := by
    rw [staging.now, Files.staged_append]
  refine ⟨grown, fun fs logged => ?_⟩
  rcases List.mem_cons.mp logged with rfl | earlier
  · exact .inr ⟨_, grown⟩
  · exact staging.log fs earlier

/-- The loop ends with the whole data in the temporary file, or fails on the way; it is still running
only after as many interruptions as turns, the bytes written apart. -/
theorem writeAll_staging (lawful : os.Lawful) (fuel : Nat) {off : Nat} {result : Option Bool}
    (staging : Staging before tmp inode (data.take off) d) (within : off ≤ data.length)
    (run : writeAll os inode data fuel off d = (result, d')) :
    (∃ part, Staging before tmp inode part d') ∧
      (result = some true → Staging before tmp inode data d') ∧
      (result = none → fuel + d.interrupted ≤ data.length - off + d'.interrupted) := by
  induction fuel generalizing off d with
  | zero =>
      simp only [writeAll] at run
      split at run
      · cases run
        exact ⟨⟨_, staging⟩, by simp, fun _ => by omega⟩
      · cases run
        rw [List.take_of_length_le (by omega)] at staging
        exact ⟨⟨_, staging⟩, fun _ => staging, by simp⟩
  | succ fuel ih =>
      simp only [writeAll] at run
      split at run
      · split at run
        · rename_i n w wrote
          have offered : data.drop off ≠ [] := by simpa using ‹off < data.length›
          obtain ⟨some, most⟩ := lawful.progress _ _ _ _ offered wrote
          rw [List.length_drop] at most
          have grown := staging.append ((data.drop off).take n) w
          rw [← List.take_add] at grown
          obtain ⟨held, whole, running⟩ := ih grown (by omega) run
          refine ⟨held, whole, fun going => ?_⟩
          have bound := running going
          simp only [Disk.after] at bound
          omega
        · rename_i w interrupted
          have again : Staging before tmp inode (data.take off)
              { d.after d.fs w with interrupted := d.interrupted + 1 } :=
            ⟨(staging.after w).now, (staging.after w).log⟩
          obtain ⟨held, whole, running⟩ := ih again within run
          refine ⟨held, whole, fun going => ?_⟩
          have bound := running going
          dsimp only at bound
          omega
        · rename_i w failed
          cases run
          exact ⟨⟨_, staging.after w⟩, by simp, by simp⟩
      · cases run
        rw [List.take_of_length_le (by omega)] at staging
        exact ⟨⟨_, staging⟩, fun _ => staging, by simp⟩

/-- A state of the temporary file is one a reader of any other entry does not notice. -/
theorem Staging.steps (staging : Staging before tmp inode content d)
    (fresh : before.Fresh tmp inode) (apart : tmp ≠ target) :
    ∀ fs ∈ d.log, fs.read target = before.read target ∧
      ∀ other, other ≠ target → some tmp ≠ some other → fs.read other = before.read other := by
  intro fs logged
  rcases staging.log fs logged with rfl | ⟨part, rfl⟩
  · exact ⟨rfl, fun _ _ _ => rfl⟩
  · refine ⟨Files.read_staged fresh part apart.symm, fun other _ away => ?_⟩
    exact Files.read_staged fresh part fun same => away (congrArg some same.symm)

theorem Staging.running (staging : Staging before tmp inode content d)
    (fresh : before.Fresh tmp inode) (apart : tmp ≠ target) :
    AtomicWrite before target data none d where
  steps := by
    refine ⟨some tmp, fun p here => Option.some.inj here ▸ fresh.absent, fun fs logged => ?_⟩
    obtain ⟨same, others⟩ := staging.steps fresh apart fs logged
    exact ⟨.inl same, others⟩
  placed := nofun
  kept := nofun
  others := nofun

variable {tmpPath path : Bytes}

/-- Giving up leaves everything as it was. -/
theorem unlinkTmp_atomic (staging : Staging before (os.resolve tmpPath) inode content d)
    (fresh : before.Fresh (os.resolve tmpPath) inode) (apart : os.resolve tmpPath ≠ target) :
    AtomicWrite before target data (some (unlinkTmp os tmpPath d).1) (unlinkTmp os tmpPath d).2 := by
  have names : (d.fs.unlink (os.resolve tmpPath)).names = before.names := by
    rw [staging.now]
    exact Files.names_unlink_staged fresh.absent
  have read : ∀ p, (d.fs.unlink (os.resolve tmpPath)).read p = before.read p := by
    rw [staging.now]
    exact Files.read_unlink_staged fresh
  have steps := staging.steps fresh apart
  refine ⟨⟨some (os.resolve tmpPath), fun p here => Option.some.inj here ▸ fresh.absent, ?_⟩,
    fun rc returned => ?_, fun rc _ _ => read target, fun rc _ other _ => ⟨?_, read other⟩⟩
  · intro fs logged
    rcases List.mem_cons.mp logged with rfl | earlier
    · exact ⟨.inl (read target), fun other _ _ => read other⟩
    · exact ⟨.inl (steps fs earlier).1, (steps fs earlier).2⟩
  · obtain rfl : Rc.errIo = rc := Option.some.inj returned
    exact iff_of_false (by simp) fun placed => placed.1 (congrFun names target)
  · exact congrFun names other

theorem closeAndUnlink_atomic (staging : Staging before (os.resolve tmpPath) inode content d)
    (fresh : before.Fresh (os.resolve tmpPath) inode) (apart : os.resolve tmpPath ≠ target) :
    AtomicWrite before target data (some (closeAndUnlink os tmpPath d).1)
      (closeAndUnlink os tmpPath d).2 :=
  unlinkTmp_atomic (staging.after _) fresh apart

/-- Moving the complete file over the target. -/
theorem rename_atomic (staging : Staging before (os.resolve tmpPath) inode data d)
    (fresh : before.Fresh (os.resolve tmpPath) inode) (apart : os.resolve tmpPath ≠ target) (w : σ) :
    AtomicWrite before target data (some .ok)
      (d.after (d.fs.rename (os.resolve tmpPath) target) w) := by
  have names : (d.fs.rename (os.resolve tmpPath) target).names =
      Function.update before.names target (some inode) := by
    rw [staging.now]
    exact Files.names_rename_staged fresh.absent apart
  have read : ∀ p, (d.fs.rename (os.resolve tmpPath) target).read p =
      if p = target then some data else before.read p := by
    rw [staging.now]
    exact Files.read_rename_staged fresh apart
  have here : (d.fs.rename (os.resolve tmpPath) target).read target = some data := by
    rw [read, if_pos rfl]
  have there : ∀ other, other ≠ target →
      (d.fs.rename (os.resolve tmpPath) target).read other = before.read other := by
    intro other away
    rw [read, if_neg away]
  have steps := staging.steps fresh apart
  refine ⟨⟨some (os.resolve tmpPath), fun p same => Option.some.inj same ▸ fresh.absent, ?_⟩,
    fun rc returned => ?_, fun rc returned failed => ?_, fun rc _ other away => ⟨?_, there other away⟩⟩
  · intro fs logged
    rcases List.mem_cons.mp logged with rfl | earlier
    · exact ⟨.inr here, fun other away _ => there other away⟩
    · exact ⟨.inl (steps fs earlier).1, (steps fs earlier).2⟩
  · refine iff_of_true (Option.some.inj returned).symm ⟨fun same => ?_, here⟩
    change (d.fs.rename (os.resolve tmpPath) target).names target = _ at same
    rw [names, Function.update_self] at same
    exact fresh.unused target same.symm
  · exact absurd (Option.some.inj returned).symm failed
  · exact (congrFun names other).trans (Function.update_of_ne away ..)

theorem posixCommit_atomic (staging : Staging before (os.resolve tmpPath) inode data d)
    (fresh : before.Fresh (os.resolve tmpPath) inode)
    (apart : os.resolve tmpPath ≠ os.resolve path) :
    AtomicWrite before (os.resolve path) data (some (posixCommit os tmpPath path d).1)
      (posixCommit os tmpPath path d).2 := by
  unfold posixCommit
  split
  · exact closeAndUnlink_atomic (staging.after _) fresh apart
  · have synced := staging.after (d := d) ‹_›
    dsimp only
    split
    · exact unlinkTmp_atomic (synced.after _) fresh apart
    · split
      · exact unlinkTmp_atomic ((synced.after _).after _) fresh apart
      · exact rename_atomic (synced.after _) fresh apart _

theorem posixFill_atomic (lawful : os.Lawful) (fuel : Nat) (data : Bytes) (sensitive : Bool)
    (staging : Staging before (os.resolve tmpPath) inode [] d)
    (fresh : before.Fresh (os.resolve tmpPath) inode)
    (apart : os.resolve tmpPath ≠ os.resolve path) :
    AtomicWrite before (os.resolve path) data
        (posixFill os fuel tmpPath path inode data sensitive d).1
        (posixFill os fuel tmpPath path inode data sensitive d).2 ∧
      ((posixFill os fuel tmpPath path inode data sensitive d).1 = none →
        fuel + d.interrupted ≤
          data.length + (posixFill os fuel tmpPath path inode data sensitive d).2.interrupted) := by
  unfold posixFill
  split
  · exact ⟨closeAndUnlink_atomic (staging.after _) fresh apart, nofun⟩
  · rename_i w _
    cases ran : writeAll os inode data fuel 0 (d.after d.fs w) with
    | mk result d' =>
        obtain ⟨⟨part, held⟩, whole, running⟩ :=
          writeAll_staging lawful fuel (staging.after w) (Nat.zero_le _) ran
        cases result with
        | none => exact ⟨held.running fresh apart, fun _ => running rfl⟩
        | some filled =>
            cases filled with
            | false => exact ⟨closeAndUnlink_atomic held fresh apart, nofun⟩
            | true => exact ⟨posixCommit_atomic (whole rfl) fresh apart, nofun⟩

end Staging

omit [DecidableEq π] [DecidableEq ι] in
/-- A call that ends before it has created a file has changed nothing. -/
theorem AtomicWrite.unchanged {before : Files π ι} {target : π} {data : Bytes} {rc : Rc}
    {d : Disk π ι σ} (failed : rc ≠ .ok) (same : d.fs = before) (log : ∀ fs ∈ d.log, fs = before) :
    AtomicWrite before target data (some rc) d where
  steps := ⟨none, nofun, fun fs logged => by
    rw [log fs logged]
    exact ⟨.inl rfl, fun _ _ _ => rfl⟩⟩
  placed := fun rc' returned => by
    obtain rfl : rc = rc' := Option.some.inj returned
    exact iff_of_false failed fun placed => placed.1 (by rw [same])
  kept := fun _ _ _ => by rw [same]
  others := fun _ _ _ _ => by rw [same]; exact ⟨rfl, rfl⟩

/-- A write to the store is atomic whatever fails and wherever it is stopped, and is still running
after `fuel` turns only if it was interrupted that often, one turn per byte apart. -/
theorem posixWrite_atomic {os : Os π ι σ} (lawful : os.Lawful) (fuel : Nat)
    (root key data : Bytes) (sensitive : Bool) (before : Files π ι) (w : σ) {result : Option Rc}
    {d : Disk π ι σ}
    (run : posixWrite os fuel root key data sensitive ⟨before, [], 0, w⟩ = (result, d)) :
    AtomicWrite before (os.resolve (posixJoin root key)) data result d ∧
      (result = none → fuel ≤ data.length + d.interrupted) := by
  simp only [posixWrite] at run
  split at run
  · cases run
    exact ⟨.unchanged (by simp) rfl (by simp), nofun⟩
  · split at run
    · cases run
      exact ⟨.unchanged (by simp) rfl (by simp), nofun⟩
    · split at run
      · cases run
        exact ⟨.unchanged (by simp) rfl (by simp [Disk.after]), nofun⟩
      · rename_i tmp inode w' made
        have fresh := lawful.fresh _ _ _ _ _ _ made
        have apart := lawful.apart _ _ _ _ _ _ made
        have staging : Staging before (os.resolve tmp) inode []
            (Disk.after ⟨before, [], 0, w⟩ (before.create (os.resolve tmp) inode) w') := by
          refine ⟨Files.create_eq _ _ _, fun fs logged => ?_⟩
          obtain rfl := List.mem_singleton.mp logged
          exact .inr ⟨[], Files.create_eq _ _ _⟩
        have filled := posixFill_atomic lawful fuel data sensitive staging fresh apart
        rw [run] at filled
        exact ⟨filled.1, fun running => by simpa [Disk.after] using filled.2 running⟩

/-- Two entries, the key's and the temporary one; the world is the list of write results to come. -/
def exampleOs : Os Bool Bool (List WriteCall) where
  resolve path := decide (path ≠ ascii "ca/key")
  alloc w _ := (true, w)
  mkstemp fs w template :=
    if template = ascii "ca/key" ++ ascii ".XXXXXX" ∧ fs.names true = none ∧
        fs.names false ≠ some true then
      (some (ascii "ca/key.tmp000", true), w)
    else (none, w)
  fchmod w _ := (true, w)
  write w buf :=
    match w with
    | [] => (.wrote buf.length, [])
    | .wrote n :: later => (if 0 < n ∧ n ≤ buf.length then .wrote n else .failed, later)
    | call :: later => (call, later)
  fsync w := (true, w)
  close w := (true, w)
  rename w _ _ := (true, w)

theorem exampleOs_lawful : exampleOs.Lawful := by
  constructor
  · intro fs w template tmp inode w' made
    simp only [exampleOs] at made
    split at made
    · rename_i free
      cases made
      refine ⟨free.2.1, fun p => ?_⟩
      cases p with
      | true => rw [free.2.1]; simp
      | false => exact free.2.2
    · cases made
  · intro fs w path tmp inode w' made
    simp only [exampleOs] at made
    split at made
    · rename_i free
      cases made
      rw [List.append_cancel_right free.1]
      decide
    · cases made
  · intro w buf n w' offered wrote
    have size := List.length_pos_iff.mpr offered
    simp only [exampleOs] at wrote
    split at wrote
    · cases wrote
      omega
    · split at wrote <;> cases wrote
      omega
    · rename_i other
      cases wrote
      exact absurd rfl (other n)

/-- A replacement through two short writes and an interruption. -/
theorem posixWrite_atomic_short :
    ∃ d, posixWrite exampleOs 9 (ascii "ca") (ascii "key") [7, 8, 9] true
        ⟨⟨fun p => if p then none else some false, fun _ => [1]⟩, [], 0, [.wrote 1, .eintr, .wrote 2]⟩ =
      (some .ok, d) ∧
      AtomicWrite ⟨fun p => if p then none else some false, fun _ => [1]⟩ false [7, 8, 9] (some .ok) d := by
  generalize ran : posixWrite exampleOs 9 (ascii "ca") (ascii "key") [7, 8, 9] true
    ⟨⟨fun p => if p then none else some false, fun _ => [1]⟩, [], 0, [.wrote 1, .eintr, .wrote 2]⟩ = out
  obtain ⟨result, d⟩ := out
  obtain rfl : some Rc.ok = result := by
    have code := congrArg Prod.fst ran
    rw [← show _ = result from code]
    decide
  exact ⟨d, rfl, (posixWrite_atomic exampleOs_lawful 9 _ _ _ _ _ _ ran).1⟩

end WolfCert.Store
