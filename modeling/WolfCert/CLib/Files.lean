import Mathlib.Logic.Function.Basic
import WolfCert.CLib.Bytes

/-!
# A file system

Directory entries that name inodes, and the contents of the inodes. A system call is one update of
the whole, so each is atomic.
-/

namespace WolfCert.CLib

structure Files (π ι : Type) where
  names : π → Option ι
  data : ι → Bytes

namespace Files

variable {π ι : Type} [DecidableEq π] [DecidableEq ι] {fs : Files π ι} {place other dst : π}
  {inode : ι} {content : Bytes}

/-- What reading the file at a place yields. -/
def read (fs : Files π ι) (place : π) : Option Bytes :=
  (fs.names place).map fs.data

def create (fs : Files π ι) (place : π) (inode : ι) : Files π ι where
  names := Function.update fs.names place (some inode)
  data := Function.update fs.data inode []

def append (fs : Files π ι) (inode : ι) (more : Bytes) : Files π ι :=
  { fs with data := Function.update fs.data inode (fs.data inode ++ more) }

def rename (fs : Files π ι) (src dst : π) : Files π ι :=
  { fs with names := Function.update (Function.update fs.names dst (fs.names src)) src none }

def unlink (fs : Files π ι) (place : π) : Files π ι :=
  { fs with names := Function.update fs.names place none }

/-- An entry that does not exist and an inode that no entry names. -/
structure Fresh (fs : Files π ι) (place : π) (inode : ι) : Prop where
  absent : fs.names place = none
  unused : ∀ p, fs.names p ≠ some inode

/-- The file system with one more file. -/
def staged (fs : Files π ι) (place : π) (inode : ι) (content : Bytes) : Files π ι where
  names := Function.update fs.names place (some inode)
  data := Function.update fs.data inode content

theorem create_eq (fs : Files π ι) (place : π) (inode : ι) :
    fs.create place inode = fs.staged place inode [] := rfl

theorem staged_append (more : Bytes) :
    (fs.staged place inode content).append inode more = fs.staged place inode (content ++ more) := by
  simp [staged, append]

omit [DecidableEq π] in
/-- The contents of an inode no entry names are not seen. -/
theorem read_update (fresh : fs.Fresh place inode) (content : Bytes) (p : π) :
    (fs.names p).map (Function.update fs.data inode content) = fs.read p := by
  unfold read
  cases named : fs.names p with
  | none => rfl
  | some i =>
      have different : i ≠ inode := fun same => fresh.unused p (same ▸ named)
      simp [Function.update_of_ne different]

/-- A new file is seen at its own place only. -/
theorem read_staged (fresh : fs.Fresh place inode) (content : Bytes) (away : other ≠ place) :
    (fs.staged place inode content).read other = fs.read other := by
  rw [← read_update fresh content]
  simp [read, staged, Function.update_of_ne away]

theorem names_unlink_staged (absent : fs.names place = none) :
    ((fs.staged place inode content).unlink place).names = fs.names := by
  simp [staged, unlink, ← absent]

/-- Removing a new file leaves what was there before it. -/
theorem read_unlink_staged (fresh : fs.Fresh place inode) (p : π) :
    ((fs.staged place inode content).unlink place).read p = fs.read p := by
  unfold read
  rw [names_unlink_staged fresh.absent]
  exact read_update fresh content p

theorem names_rename_staged (absent : fs.names place = none) (apart : place ≠ dst) :
    ((fs.staged place inode content).rename place dst).names =
      Function.update fs.names dst (some inode) := by
  funext p
  by_cases here : p = place
  · subst here
    simp [rename, absent, Function.update_of_ne apart]
  · by_cases target : p = dst
    · subst target
      simp [rename, staged, Function.update_of_ne here]
    · simp [rename, staged, Function.update_of_ne here, Function.update_of_ne target]

/-- Moving a new file over an entry replaces that entry by the whole file, and nothing else. -/
theorem read_rename_staged (fresh : fs.Fresh place inode) (apart : place ≠ dst) (p : π) :
    ((fs.staged place inode content).rename place dst).read p =
      if p = dst then some content else fs.read p := by
  unfold read
  rw [names_rename_staged fresh.absent apart]
  split
  · rename_i target
    subst target
    simp [rename, staged]
  · rename_i target
    rw [Function.update_of_ne target]
    exact read_update fresh content p

end Files

end WolfCert.CLib
