import Coroserver.Bytes
import Mathlib.Logic.Function.Basic

/-! A path is linked to one of the files that have been created under it. A file
that is no longer linked can still be written by whoever has it open, and every
writer has an offset of its own. -/

namespace Coroserver

open Function

structure FileStore (Path : Type) where
  linked : Path → Option Nat
  /-- The number of the file that is created next. -/
  created : Path → Nat
  contents : Path → Nat → Bytes

namespace FileStore

variable {Path : Type}

def ofContents (prior : Path → Option Bytes) : FileStore Path where
  linked path := (prior path).map fun _ => 0
  created _ := 1
  contents path _ := (prior path).getD []

def read (store : FileStore Path) (path : Path) : Option Bytes :=
  (store.linked path).map (store.contents path)

def overwrite (offset : Nat) (bytes content : Bytes) : Bytes :=
  content.take offset ++ List.replicate (offset - content.length) 0 ++ bytes ++
    content.drop (offset + bytes.length)

theorem overwrite_end (bytes content : Bytes) :
    overwrite content.length bytes content = content ++ bytes := by
  simp [overwrite]

structure Holds (store : FileStore Path) (path : Path) (file : Nat) (content : Bytes) :
    Prop where
  linked : store.linked path = some file
  content : store.contents path file = content

variable {store : FileStore Path} {path other : Path} {file : Nat} {content : Bytes}

theorem Holds.read_eq (holds : store.Holds path file content) : store.read path = some content := by
  rw [read, holds.linked, Option.map_some, holds.content]

variable [DecidableEq Path]

def remove (store : FileStore Path) (path : Path) : FileStore Path :=
  { store with linked := update store.linked path none }

def setContent (store : FileStore Path) (path : Path) (file : Nat) (content : Bytes) :
    FileStore Path :=
  { store with
    contents := update store.contents path
      (update (store.contents path) file content) }

def write (store : FileStore Path) (path : Path) (file offset : Nat) (bytes : Bytes) :
    FileStore Path :=
  store.setContent path file (overwrite offset bytes (store.contents path file))

def target (store : FileStore Path) (path : Path) : Nat :=
  (store.linked path).getD (store.created path)

def openTruncate (store : FileStore Path) (path : Path) : FileStore Path :=
  { store.setContent path (store.target path) [] with
    linked := update store.linked path (some (store.target path))
    created := update store.created path (store.created path + 1) }

theorem holds_openTruncate (store : FileStore Path) (path : Path) :
    (store.openTruncate path).Holds path (store.target path) [] :=
  ⟨update_self _ _ _, by simp [openTruncate, setContent]⟩

section

variable (holds : store.Holds path file content)

include holds

theorem Holds.write (bytes : Bytes) :
    (store.write path file content.length bytes).Holds path file (content ++ bytes) := by
  refine ⟨holds.linked, ?_⟩
  rw [← overwrite_end, ← holds.content]
  simp [FileStore.write, setContent]

theorem Holds.remove_of_ne (apart : path ≠ other) :
    (store.remove other).Holds path file content :=
  ⟨(update_of_ne apart _ _).trans holds.linked, holds.content⟩

theorem Holds.setContent_of_ne (apart : path ≠ other) (changed : Nat) (bytes : Bytes) :
    (store.setContent other changed bytes).Holds path file content :=
  ⟨holds.linked, (congrFun (update_of_ne apart _ _) file).trans holds.content⟩

theorem Holds.openTruncate_of_ne (apart : path ≠ other) :
    (store.openTruncate other).Holds path file content :=
  ⟨(update_of_ne apart _ _).trans holds.linked,
    (holds.setContent_of_ne apart (store.target other) []).content⟩

end

end FileStore

end Coroserver
