import CppRag.Foundation.OutputStream
import Mathlib.Logic.Function.Basic

/-!
A directory of regular files. A name leads to an inode and an inode to contents, so
an open descriptor keeps its inode whatever happens to the name it was opened by.
No two names share an inode.
-/
open OutputStream

structure FileSystem (Name : Type) where
  entries : Name → Option Nat
  contents : Nat → List UInt8
  /-- The inode the next new file gets. -/
  next : Nat
  entries_lt : ∀ name inode, entries name = some inode → inode < next
  entries_inj : ∀ a b inode, entries a = some inode → entries b = some inode → a = b

namespace FileSystem
variable {Name : Type}

/-- No names and no inodes. -/
def empty : FileSystem Name := ⟨fun _ => none, fun _ => [], 0, nofun, nofun⟩

def read (fs : FileSystem Name) (name : Name) : Option (List UInt8) :=
  (fs.entries name).map fs.contents

/-- Replaces what an open descriptor sees in its inode. -/
def setContents (fs : FileSystem Name) (inode : Nat) (bytes : List UInt8) : FileSystem Name :=
  { fs with contents := Function.update fs.contents inode bytes }

def writeAt (fs : FileSystem Name) (inode position : Nat) (data : List UInt8) :
    FileSystem Name :=
  fs.setContents inode (overwrite (fs.contents inode) position data)

/-! Writing through a descriptor. -/

@[simp] theorem entries_setContents (fs : FileSystem Name) (inode : Nat) (bytes : List UInt8) :
    (fs.setContents inode bytes).entries = fs.entries := rfl

@[simp] theorem contents_setContents (fs : FileSystem Name) (inode : Nat)
    (bytes : List UInt8) : (fs.setContents inode bytes).contents inode = bytes :=
  Function.update_self ..

theorem read_eq (fs : FileSystem Name) {name : Name} {inode : Nat}
    (h : fs.entries name = some inode) : fs.read name = some (fs.contents inode) := by
  rw [read, h, Option.map_some]

theorem read_eq_none_iff (fs : FileSystem Name) (name : Name) :
    fs.read name = none ↔ fs.entries name = none :=
  Option.map_eq_none_iff

theorem read_setContents_of_ne (fs : FileSystem Name) {name : Name} {inode : Nat}
    (bytes : List UInt8) (h : fs.entries name ≠ some inode) :
    (fs.setContents inode bytes).read name = fs.read name := by
  simp only [read, setContents]
  cases hname : fs.entries name with
  | none => rfl
  | some other =>
      have hne : other ≠ inode := fun he => h (by rw [hname, he])
      simp only [Option.map_some, Function.update_of_ne hne]

/-- What is written to a file is not seen under another name. -/
theorem read_setContents_other (fs : FileSystem Name) {name other : Name} {inode : Nat}
    (bytes : List UInt8) (hentry : fs.entries name = some inode) (hne : other ≠ name) :
    (fs.setContents inode bytes).read other = fs.read other :=
  fs.read_setContents_of_ne bytes fun hother => hne (fs.entries_inj _ _ _ hother hentry)

/-! An inode that is not reached through a name. -/

/-- The inode is there, and not under the name. -/
structure Apart (fs : FileSystem Name) (name : Name) (inode : Nat) : Prop where
  lt : inode < fs.next
  entry : fs.entries name ≠ some inode

/-- The inode keeps its contents and stays apart from the name. -/
structure Spares (fs fs' : FileSystem Name) (name : Name) (inode : Nat) : Prop where
  apart : fs'.Apart name inode
  contents : fs'.contents inode = fs.contents inode

section Spares
variable {fs : FileSystem Name} {name : Name} {inode : Nat}

/-- What is under another name is apart. -/
theorem apart_of_entry {other : Name} (hne : other ≠ name)
    (hentry : fs.entries other = some inode) : fs.Apart name inode :=
  ⟨fs.entries_lt other inode hentry, fun h => hne (fs.entries_inj _ _ _ hentry h)⟩

theorem Apart.spares (h : fs.Apart name inode) : fs.Spares fs name inode := ⟨h, rfl⟩

theorem Apart.spares_setContents (h : fs.Apart name inode) {fd : Nat} (bytes : List UInt8)
    (hentry : fs.entries name = some fd) : fs.Spares (fs.setContents fd bytes) name inode := by
  have hne : inode ≠ fd := fun he => h.entry (by rw [he, hentry])
  exact ⟨⟨h.lt, h.entry⟩, Function.update_of_ne hne _ _⟩

end Spares

/-! Changing names. -/

variable [DecidableEq Name]

def create (fs : FileSystem Name) (name : Name) : FileSystem Name :=
  { entries := Function.update fs.entries name (some fs.next)
    contents := Function.update fs.contents fs.next []
    next := fs.next + 1
    entries_lt := by
      intro a inode ha
      rw [Function.update_apply] at ha
      split at ha
      · cases ha
        exact Nat.lt_succ_self _
      · exact Nat.lt_succ_of_lt (fs.entries_lt a inode ha)
    entries_inj := by
      intro a b inode ha hb
      rw [Function.update_apply] at ha hb
      split at ha <;> split at hb
      · next hna hnb => rw [hna, hnb]
      · cases ha
        exact absurd (fs.entries_lt b _ hb) (Nat.lt_irrefl _)
      · cases hb
        exact absurd (fs.entries_lt a _ ha) (Nat.lt_irrefl _)
      · exact fs.entries_inj a b inode ha hb }

/-- Opens for writing and empties the file, creating it first when there is none. -/
def openTruncate (fs : FileSystem Name) (name : Name) : FileSystem Name × Nat :=
  match fs.entries name with
  | some inode => (fs.setContents inode [], inode)
  | none => (fs.create name, fs.next)

def remove (fs : FileSystem Name) (name : Name) : FileSystem Name :=
  { fs with
    entries := Function.update fs.entries name none
    entries_lt := by
      intro a inode ha
      rw [Function.update_apply] at ha
      split at ha
      · cases ha
      · exact fs.entries_lt a inode ha
    entries_inj := by
      intro a b inode ha hb
      rw [Function.update_apply] at ha hb
      split at ha
      · cases ha
      · split at hb
        · cases hb
        · exact fs.entries_inj a b inode ha hb }

/-- Moves the inode of `old` to `new` in one step; without an `old` nothing happens. -/
def rename (fs : FileSystem Name) (old new : Name) : Option (FileSystem Name) :=
  match h : fs.entries old with
  | none => none
  | some moved => some
      { fs with
        entries := Function.update (Function.update fs.entries old none) new (some moved)
        entries_lt := by
          intro a inode ha
          rw [Function.update_apply, Function.update_apply] at ha
          split at ha
          · cases ha
            exact fs.entries_lt old moved h
          · split at ha
            · cases ha
            · exact fs.entries_lt a inode ha
        entries_inj := by
          intro a b inode ha hb
          rw [Function.update_apply, Function.update_apply] at ha hb
          split at ha <;> split at hb
          · next hna hnb => rw [hna, hnb]
          · cases ha
            split at hb
            · cases hb
            · next hbo => exact absurd (fs.entries_inj b old _ hb h) hbo
          · cases hb
            split at ha
            · cases ha
            · next hao => exact absurd (fs.entries_inj a old _ ha h) hao
          · split at ha
            · cases ha
            · split at hb
              · cases hb
              · exact fs.entries_inj a b inode ha hb }

theorem openTruncate_entry (fs : FileSystem Name) (name : Name) :
    (fs.openTruncate name).1.entries name = some (fs.openTruncate name).2 := by
  unfold openTruncate
  cases h : fs.entries name with
  | none => simp [create]
  | some inode => simpa using h

theorem openTruncate_contents (fs : FileSystem Name) (name : Name) :
    (fs.openTruncate name).1.contents (fs.openTruncate name).2 = [] := by
  unfold openTruncate
  cases h : fs.entries name with
  | none => simp [create]
  | some inode => simp

theorem read_openTruncate_other (fs : FileSystem Name) {name other : Name}
    (hne : other ≠ name) : (fs.openTruncate name).1.read other = fs.read other := by
  unfold openTruncate
  cases h : fs.entries name with
  | some inode => exact fs.read_setContents_other [] h hne
  | none =>
      simp only [read, create, Function.update_of_ne hne]
      cases hother : fs.entries other with
      | none => rfl
      | some inode =>
          have hlt := fs.entries_lt other inode hother
          simp only [Option.map_some, Function.update_of_ne (Nat.ne_of_lt hlt)]

theorem read_remove_self (fs : FileSystem Name) (name : Name) :
    (fs.remove name).read name = none := by
  simp [read, remove]

theorem read_remove_other (fs : FileSystem Name) {name other : Name} (hne : other ≠ name) :
    (fs.remove name).read other = fs.read other := by
  simp only [read, remove, Function.update_of_ne hne]

theorem rename_eq_none_iff (fs : FileSystem Name) (old new : Name) :
    fs.rename old new = none ↔ fs.entries old = none := by
  unfold rename
  split <;> simp_all

section Spares
variable {fs : FileSystem Name} {name : Name} {inode : Nat}

theorem Apart.spares_openTruncate (h : fs.Apart name inode) :
    fs.Spares (fs.openTruncate name).1 name inode := by
  unfold openTruncate
  cases hentry : fs.entries name with
  | some fd => exact h.spares_setContents [] hentry
  | none =>
      have hne : inode ≠ fs.next := Nat.ne_of_lt h.lt
      refine ⟨⟨Nat.lt_succ_of_lt h.lt, ?_⟩, Function.update_of_ne hne _ _⟩
      simp only [create, Function.update_self]
      exact fun he => hne (Option.some.inj he).symm

theorem Apart.spares_remove (h : fs.Apart name inode) (other : Name) :
    fs.Spares (fs.remove other) name inode := by
  refine ⟨⟨h.lt, ?_⟩, rfl⟩
  simp only [remove, Function.update_apply]
  split
  · exact nofun
  · exact h.entry

/-- The inode under the name moves away; the name is free after that. -/
theorem Apart.spares_rename (h : fs.Apart name inode) {fs' : FileSystem Name} {new : Name}
    (hne : new ≠ name) (hrename : fs.rename name new = some fs') :
    fs.Spares fs' name inode := by
  unfold rename at hrename
  split at hrename
  · cases hrename
  · cases hrename
    refine ⟨⟨h.lt, ?_⟩, rfl⟩
    simp only [Function.update_of_ne hne.symm, Function.update_self]
    exact nofun

end Spares

/-- After a rename the new name holds what the old one held. -/
theorem read_rename (fs fs' : FileSystem Name) {old new : Name}
    (h : fs.rename old new = some fs') : fs'.read new = fs.read old := by
  unfold rename at h
  split at h
  · cases h
  · next moved hmoved =>
      cases h
      simp [read, hmoved]

/-- A rename is not seen under any other name. -/
theorem read_rename_other (fs fs' : FileSystem Name) {old new other : Name}
    (h : fs.rename old new = some fs') (hold : other ≠ old) (hnew : other ≠ new) :
    fs'.read other = fs.read other := by
  unfold rename at h
  split at h
  · cases h
  · cases h
    simp only [read, Function.update_of_ne hnew, Function.update_of_ne hold]

end FileSystem
