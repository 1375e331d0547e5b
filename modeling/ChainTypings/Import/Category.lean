/-!
# Import categories

The names that the type library exports, by the category from which they are imported. No name is
in two categories; `Category.of?` looks through the tables in a fixed order all the same.
-/

namespace ChainTypings

/-- A group of names that the type library exports together. -/
inductive Category where
  | codec | extrinsic | generic | metadata | primitive | types
  deriving DecidableEq, Repr, Inhabited

namespace Category

/-- All categories, in the order in which they are listed. -/
def all : List Category := [codec, extrinsic, generic, metadata, primitive, types]

theorem mem_all (c : Category) : c ∈ all := by cases c <;> decide

/-- The categories imported from the base module, which is all but the interface types. -/
def ofBaseModule : List Category := [codec, extrinsic, generic, metadata, primitive]

/-- The name of a category. -/
def name : Category → String
  | codec => "codecTypes"
  | extrinsic => "extrinsicTypes"
  | generic => "genericTypes"
  | metadata => "metadataTypes"
  | primitive => "primitiveTypes"
  | types => "typesTypes"

/-- The names in a category. -/
def members : Category → List String
  | types =>
    ["AnyNumber", "As", "CallFunction", "Codec", "IExtrinsic", "IMethod", "IStorageKey", "ITuple"]
  | metadata => ["Metadata", "PortableRegistry"]
  | codec =>
    ["BTreeMap", "BTreeSet", "Compact", "DoNotConstruct", "Enum", "HashMap", "Int", "Linkage",
     "Null", "Option", "Range", "Result", "Set", "Struct", "Tuple", "U8aFixed", "UInt", "Vec",
     "VecFixed", "WrapperOpaque"]
  | extrinsic =>
    ["GenericExtrinsic", "GenericExtrinsicEra", "GenericExtrinsicPayload", "GenericExtrinsicV4",
     "GenericSignerPayload"]
  | generic =>
    ["GenericAccountId", "GenericAccountIndex", "GenericCall", "GenericConsensusEngineId",
     "GenericEthereumAccountId", "GenericEvent", "GenericLookupSource", "GenericMultiAddress",
     "GenericVote"]
  | primitive =>
    ["bool", "Bytes", "Data", "f32", "f64", "H160", "H256", "H512", "i8", "i16", "i32", "i64",
     "i128", "i256", "isize", "StorageKey", "Text", "Type", "u8", "u16", "u32", "u64", "u128",
     "u256", "usize"]

/-- The order in which the tables are searched. -/
def searchOrder : List Category := [types, metadata, codec, extrinsic, generic, primitive]

/-- The category of a name. -/
def of? (name : String) : Option Category := searchOrder.find? fun c => name ∈ c.members

/-- All names that the type library exports. -/
def builtins : List String := searchOrder.flatMap members

theorem mem_members_of_of? {name : String} {c : Category} (h : of? name = some c) :
    name ∈ c.members := by
  simpa using List.find?_some h

end Category

end ChainTypings
