import ChainTypings.Files.Path
import ChainTypings.Text.Quoted

/-!
# Files

The files and directories that a run can meet, seen from the directory it runs in. A path is
followed part by part, so of two faults along it the first is reported. What a run has to make it
makes one directory at a time; directories made before a fault stay.

`node?_put_self` and `node?_put_of_ne` say that what is put at a place is found there, and that other
places keep what they have.
-/

namespace ChainTypings

/-- Where the names of a place are counted from. -/
inductive Anchor where
  /-- The directory of the run, or the one so many levels above it. -/
  | above (levels : Nat)
  | root
  deriving DecidableEq, Repr

/-- The place of a file or directory; its names hold no dots that lead elsewhere. -/
structure Place where
  anchor : Anchor
  names : List String
  deriving DecidableEq, Repr

namespace Place

/-- The directory of the run. -/
def here : Place := ⟨.above 0, []⟩

/-- The directory that a place lies in. -/
def parent (p : Place) : Place :=
  match p.names, p.anchor with
  | [], .above n => ⟨.above (n + 1), []⟩
  | [], .root => p
  | names, anchor => ⟨anchor, names.dropLast⟩

/-- Where a part of a path leads to. -/
def step (p : Place) (part : String) : Place :=
  if part = ".." then p.parent else { p with names := p.names ++ [part] }

/-- The text of a place, as seen from the directory of the run. -/
def text (p : Place) : String :=
  match p.anchor with
  | .root => "/" ++ String.intercalate "/" p.names
  | .above n =>
    match List.replicate n ".." ++ p.names with
    | [] => "."
    | parts => String.intercalate "/" parts

end Place

/-- What is found at a place. -/
inductive Node where
  | directory
  | file (bytes : List UInt8)
  deriving DecidableEq, Repr

/-- Why a path cannot be used. -/
inductive FileFault where
  | notFound
  | alreadyThere
  | notDirectory
  | isDirectory
  /-- A part of the path, or the whole of it, is longer than the system allows. -/
  | nameTooLong
  /-- The path holds the character that ends texts for the system. -/
  | nullCharacter
  deriving DecidableEq, Repr

/-- The wording of a fault, with its number in the system's list if it has one. -/
def FileFault.message : FileFault → String
  | notFound => "[Errno 2] No such file or directory"
  | alreadyThere => "[Errno 17] File exists"
  | notDirectory => "[Errno 20] Not a directory"
  | isDirectory => "[Errno 21] Is a directory"
  | nameTooLong => "[Errno 36] File name too long"
  | nullCharacter => "embedded null byte"

/-- A path that cannot be used, and why. -/
structure FileError where
  fault : FileFault
  path : Path
  deriving DecidableEq, Repr

/-- The wording of a file error. -/
def FileError.message (e : FileError) : String :=
  if e.fault = .nullCharacter then e.fault.message
  else e.fault.message ++ ": " ++ Text.quote e.path.text

/-- The files and directories below the anchors. -/
structure Tree where
  nodes : List (Place × Node) := []
  deriving DecidableEq, Repr

namespace Tree

/-! ## Looking -/

/-- What is at a place; the anchors are directories. -/
def node? (t : Tree) (p : Place) : Option Node :=
  if p.names.isEmpty then some .directory else t.nodes.lookup p

/-- The most bytes that a part of a path may have. -/
def longestPart : Nat := 255

/-- The most bytes that the text of a path may have. -/
def longestPath : Nat := 4095

/-- Follows the parts of a path from a place. Whatever a part is looked up in must be a directory;
what the last part leads to need not be there. -/
def follow (t : Tree) : Place → List String → Except FileFault Place
  | p, [] => .ok p
  | p, part :: parts =>
    match t.node? p with
    | none => .error .notFound
    | some (.file _) => .error .notDirectory
    | some .directory =>
      if longestPart < part.utf8ByteSize then .error .nameTooLong
      else t.follow (p.step part) parts

/-- The place that a path leads to. -/
def locate (t : Tree) (p : Path) : Except FileFault Place :=
  if p.parts.any (·.toList.contains '\x00') then .error .nullCharacter
  else if longestPath < p.text.utf8ByteSize then .error .nameTooLong
  else t.follow (if p.slashes = 0 then .here else ⟨.root, []⟩) p.parts

/-- What a path leads to. -/
def at? (t : Tree) (p : Path) : Option Node :=
  match t.locate p with
  | .ok place => t.node? place
  | .error _ => none

/-- Whether a path leads to something. Of a path that is too long the system does not say. -/
def isPresent (t : Tree) (p : Path) : Except FileError Bool :=
  match t.locate p with
  | .ok place => .ok (t.node? place).isSome
  | .error .nameTooLong => .error ⟨.nameTooLong, p⟩
  | .error _ => .ok false

/-- Whether a path leads to a directory. -/
def isDirectory (t : Tree) (p : Path) : Bool := t.at? p = some .directory

/-- The bytes of the file that a path leads to. -/
def read (t : Tree) (p : Path) : Except FileError (List UInt8) :=
  match t.locate p with
  | .error fault => .error ⟨fault, p⟩
  | .ok place =>
    match t.node? place with
    | none => .error ⟨.notFound, p⟩
    | some .directory => .error ⟨.isDirectory, p⟩
    | some (.file bytes) => .ok bytes

/-! ## Writing -/

/-- Puts a node at a place, instead of what is there. -/
def put (t : Tree) (place : Place) (n : Node) : Tree :=
  ⟨t.nodes.filter (·.1 ≠ place) ++ [(place, n)]⟩

/-- Makes a directory; its parent must be there. -/
def makeDirectory (t : Tree) (p : Path) : Except FileError Tree :=
  match t.locate p with
  | .error fault => .error ⟨fault, p⟩
  | .ok place =>
    match t.node? place with
    | none => .ok (t.put place .directory)
    | some _ => .error ⟨.alreadyThere, p⟩

/-- What making a directory comes to if one that is there already will do. -/
def tolerant (t : Tree) (p : Path) : Except FileError Tree → Tree × Option FileError
  | .ok t' => (t', none)
  | .error e => (t, if t.isDirectory p then none else some e)

/-- Makes a directory and, where they are missing, those it lies in. The parts are given with the
last one first. -/
def makeUpwards (slashes : Nat) : List String → Tree → Tree × Option FileError
  | [], t => (t, none)
  | part :: above, t =>
    let p : Path := ⟨slashes, (part :: above).reverse⟩
    match t.makeDirectory p with
    | .error ⟨.notFound, _⟩ =>
      match makeUpwards slashes above t with
      | (t, none) => t.tolerant p (t.makeDirectory p)
      | failed => failed
    | made => t.tolerant p made

/-- Makes a directory and, where they are missing, those it lies in. -/
def makeDirectories (t : Tree) (p : Path) : Tree × Option FileError :=
  makeUpwards p.slashes p.parts.reverse t

/-- Writes a file, instead of one that is there, and gives its place. -/
def write (t : Tree) (p : Path) (bytes : List UInt8) : Except FileError (Place × Tree) :=
  match t.locate p with
  | .error fault => .error ⟨fault, p⟩
  | .ok place =>
    match t.node? place with
    | some .directory => .error ⟨.isDirectory, p⟩
    | _ => .ok (place, t.put place (.file bytes))

/-! ## What a run changed -/

/-- The files of a tree. -/
def files (t : Tree) : List (Place × List UInt8) :=
  t.nodes.filterMap fun
    | (place, .file bytes) => some (place, bytes)
    | _ => none

/-- The files of a tree that are not, or not so, in an earlier one. -/
def changesSince (t before : Tree) : List (Place × List UInt8) :=
  t.files.filter fun (place, bytes) => before.node? place ≠ some (.file bytes)

theorem lookup_filter_ne {nodes : List (Place × Node)} {p q : Place} (h : q ≠ p) :
    (nodes.filter (·.1 ≠ p)).lookup q = nodes.lookup q := by
  induction nodes with
  | nil => rfl
  | cons e nodes ih =>
    obtain ⟨k, n⟩ := e
    by_cases hk : k = p
    · have hq : (q == p) = false := by simpa using h
      rw [List.filter_cons_of_neg (by simp [hk]), ih, hk, List.lookup_cons, hq]
    · rw [List.filter_cons_of_pos (by simpa using hk)]
      simp only [List.lookup_cons, ih]

theorem lookup_filter_self (nodes : List (Place × Node)) (p : Place) :
    (nodes.filter (·.1 ≠ p)).lookup p = none := by
  rw [List.lookup_eq_none_iff]
  intro e he
  have : e.1 ≠ p := by simpa using (List.mem_filter.1 he).2
  simpa using this.symm

theorem node?_put_self {place : Place} (t : Tree) (n : Node) (h : place.names ≠ []) :
    (t.put place n).node? place = some n := by
  have : place.names.isEmpty = false := by simpa using h
  simp only [node?, put, List.lookup_append, lookup_filter_self, this]
  simp

theorem node?_put_of_ne {place q : Place} (t : Tree) (n : Node) (h : q ≠ place) :
    (t.put place n).node? q = t.node? q := by
  have : (q == place) = false := by simpa using h
  simp only [node?, put, List.lookup_append, lookup_filter_ne h, List.lookup_cons, this]
  simp

end Tree

end ChainTypings
