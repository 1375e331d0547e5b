import ChainTypings.Import.Category

/-!
# The import ledger

What a document has to import: for every category and every definition file the names met so far,
each once and in the order of first mention. A name goes to its category or else to the first
definition file that lists it, and nowhere if there is neither.

Recording never fails and never looks at what is recorded already, so a document may be rendered
first and its names recorded afterwards: `recordAll` is all that is needed. `names_addTo` is what
one recorded name does to the buckets, and `nodup_addName` keeps their names apart.
-/

namespace ChainTypings

/-- The names that definition files export, in the order of the files. -/
abbrev Definitions := List (String × List String)

/-- Definition files from a listing, in which a repeated file keeps its first place and takes the
names listed last. -/
def Definitions.ofListing (listing : List (String × List String)) : Definitions :=
  listing.foldl (fun acc d =>
    if acc.any fun e => e.1 = d.1 then acc.map fun e => if e.1 = d.1 then d else e
    else acc ++ [d]) []

/-- The names met so far, by category or file, with what decides where a name goes. -/
structure Ledger where
  definitions : Definitions
  /-- Names that the document declares itself. -/
  ignored : List String
  /-- The categories and then the files, each with its names. -/
  buckets : List (String × List String)

namespace Ledger

/-- The names of all buckets, the fixed categories first, each once. -/
def bucketNames (definitions : Definitions) : List String :=
  (Category.all.map Category.name ++ definitions.map (·.1)).eraseDups

/-- A ledger without names. -/
def empty (definitions : Definitions) (ignored : List String) : Ledger :=
  { definitions, ignored, buckets := (bucketNames definitions).map fun b => (b, []) }

/-- The first definition file that lists a name. -/
def fileOf? (definitions : Definitions) (name : String) : Option String :=
  (definitions.find? fun d => d.2.contains name).map (·.1)

/-- The bucket of a name. -/
def bucketOf? (definitions : Definitions) (name : String) : Option String :=
  match Category.of? name with
  | some c => some c.name
  | none => fileOf? definitions name

/-- The names in a bucket; none in one that does not exist. -/
def names (l : Ledger) (bucket : String) : List String := (l.buckets.lookup bucket).getD []

/-- Adds a name at the end of a list that does not hold it. -/
def addName (name : String) (names : List String) : List String :=
  if names.contains name then names else names ++ [name]

theorem mem_addName {name n : String} {ns : List String} :
    n ∈ addName name ns ↔ n ∈ ns ∨ n = name := by
  unfold addName
  split
  · next h =>
    have h : name ∈ ns := by simpa using h
    exact ⟨.inl, fun h' => h'.elim id fun e => e ▸ h⟩
  · simp

theorem nodup_addName {name : String} {ns : List String} (h : ns.Nodup) :
    (addName name ns).Nodup := by
  unfold addName
  split
  · exact h
  · next hc =>
    have hc : name ∉ ns := by simpa using hc
    refine List.nodup_append.2 ⟨h, by simp, fun a ha b hb e => hc ?_⟩
    rw [List.mem_singleton] at hb
    exact hb ▸ e ▸ ha

/-- Adds a name to a bucket. -/
def addTo (l : Ledger) (bucket name : String) : Ledger :=
  { l with
    buckets := l.buckets.map fun b => (b.1, if b.1 = bucket then addName name b.2 else b.2) }

theorem lookup_mapValues (f : String → List String → List String)
    (buckets : List (String × List String)) (b : String) :
    (buckets.map fun e => (e.1, f e.1 e.2)).lookup b = (buckets.lookup b).map (f b) := by
  induction buckets with
  | nil => rfl
  | cons e rest ih =>
    obtain ⟨k, ns⟩ := e
    rw [List.map_cons, List.lookup_cons, List.lookup_cons]
    cases h : b == k with
    | false => exact ih
    | true => rw [eq_of_beq h]; rfl

/-- A name added to a bucket that exists is in it, and no other bucket changes. -/
theorem names_addTo (l : Ledger) (bucket name b : String) :
    (l.addTo bucket name).names b =
      if b = bucket ∧ (l.buckets.lookup bucket).isSome then addName name (l.names b)
      else l.names b := by
  have h := lookup_mapValues (fun k ns => if k = bucket then addName name ns else ns) l.buckets b
  unfold names addTo
  dsimp only at h ⊢
  rw [h]
  by_cases hb : b = bucket
  · subst hb
    cases l.buckets.lookup b <;> simp
  · cases l.buckets.lookup b <;> simp [hb]

/-- Records a name where it is imported from. -/
def record (l : Ledger) (name : String) : Ledger :=
  match bucketOf? l.definitions name with
  | some bucket => l.addTo bucket name
  | none => l

/-- Records names in order. -/
def recordAll (l : Ledger) (names : List String) : Ledger := names.foldl record l

theorem recordAll_append (l : Ledger) (xs ys : List String) :
    l.recordAll (xs ++ ys) = (l.recordAll xs).recordAll ys := by
  simp [recordAll]

/-- Adds names to a bucket by hand; none if there is no such bucket. -/
def register? (l : Ledger) (bucket : String) (names : List String) : Option Ledger :=
  if l.buckets.any fun b => b.1 = bucket then
    some (names.foldl (fun l name => l.addTo bucket name) l)
  else none

/-- The wording for a bucket that does not exist. -/
def unknownBucketMessage (bucket : String) : String := "Unknown import category: " ++ bucket

end Ledger

end ChainTypings
