import ChainTypings.Files.Tree
import ChainTypings.Text.Utf8

/-!
# Writing a text

A text is written to a file of a directory, which is made if it is missing. `node?_of_writeText`
says that the bytes of the text are then found at the place of the file.
-/

namespace ChainTypings

/-- A file that was written. -/
structure WrittenFile where
  name : String
  place : Place
  lines : Nat
  bytes : Nat
  deriving DecidableEq, Repr

/-- The number of line breaks in a text. -/
def Text.countBreaks (s : String) : Nat := s.toList.count '\n'

namespace Tree

/-- Writes a text to a file of a directory. -/
def writeText (t : Tree) (directory : Path) (name content : String) :
    Tree × Except FileError WrittenFile :=
  match t.makeDirectories directory with
  | (t, some e) => (t, .error e)
  | (t, none) =>
    let bytes := Text.Utf8.encode content.toList
    match t.write (directory.join (.ofString name)) bytes with
    | .error e => (t, .error e)
    | .ok (place, t) =>
      (t, .ok { name, place, lines := Text.countBreaks content, bytes := bytes.length })

theorem node?_of_write {t t' : Tree} {p : Path} {bytes : List UInt8} {place : Place}
    (h : t.write p bytes = .ok (place, t')) : t'.node? place = some (.file bytes) := by
  unfold write at h
  split at h
  · cases h
  · rename_i q _
    split at h
    · cases h
    · rename_i hd
      cases h
      refine node?_put_self _ _ fun e => hd ?_
      simp [node?, e]

theorem node?_of_writeText {t t' : Tree} {directory : Path} {name content : String}
    {w : WrittenFile} (h : t.writeText directory name content = (t', .ok w)) :
    t'.node? w.place = some (.file (Text.Utf8.encode content.toList)) := by
  unfold writeText at h
  split at h
  · cases h
  · dsimp only at h
    split at h
    · cases h
    · rename_i hw
      cases h
      exact node?_of_write hw

end Tree

end ChainTypings
