import BrokerClient.Contract

/-!
# A catalog of contracts

Records of several shapes: one field, integers of several widths, an optional field, lists, a later
version of another record, and a map whose keys are no texts.
-/
namespace BrokerClient.Catalog

structure Greeting where
  text : String
deriving DecidableEq

def greeting : Contract Greeting where
  type := ⟨"tests::Greeting"⟩
  toBody? g := some (.ofMembers [("text", .string g.text)])
  ofBody? b := do
    let [some text] ← b.fields? ["text"] | none
    return ⟨← text.string?⟩

structure Count where
  n : UInt32
deriving DecidableEq

def count : Contract Count where
  type := ⟨"tests::Count"⟩
  toBody? c := some (.ofMembers [("n", .ofNat c.n.toUInt64)])
  ofBody? b := do
    let [some n] ← b.fields? ["n"] | none
    return ⟨UInt32.ofNat (← n.intWithin? 0 0x100000000).toNat⟩

structure OrderPlaced where
  orderId : UInt64
deriving DecidableEq

def orderId? (b : Body) : Option UInt64 :=
  (b.intWithin? 0 0x10000000000000000).map (fun i => UInt64.ofNat i.toNat)

def orderPlaced : Contract OrderPlaced where
  type := ⟨"orders::OrderPlaced"⟩
  toBody? o := some (.ofMembers [("order_id", .ofNat o.orderId)])
  ofBody? b := do
    let [some id] ← b.fields? ["order_id"] | none
    return ⟨← orderId? id⟩

structure OrderPlacedV2 where
  orderId : UInt64
  region : String
deriving DecidableEq

def orderPlacedV2 : Contract OrderPlacedV2 where
  type := ⟨"orders::OrderPlacedV2"⟩
  toBody? o := some (.ofMembers [("order_id", .ofNat o.orderId), ("region", .string o.region)])
  ofBody? b := do
    let [some id, some region] ← b.fields? ["order_id", "region"] | none
    return ⟨← orderId? id, ← region.string?⟩

structure MyMessageV3 where
  text : String
  number : Int32
  flag : Bool
deriving DecidableEq

def myMessageV3 : Contract MyMessageV3 where
  type := ⟨"tests::MyMessageV3"⟩
  toBody? m :=
    some (.ofMembers
      [("text", .string m.text), ("number", .ofInt m.number.toInt), ("flag", .bool m.flag)])
  ofBody? b := do
    let [some text, some number, some flag] ← b.fields? ["text", "number", "flag"] | none
    return ⟨← text.string?, Int32.ofInt (← number.intWithin? (-0x80000000) 0x80000000), ← flag.bool?⟩

structure Profile where
  name : String
  age : Option UInt8
  tags : List String
  score : Binary64
deriving DecidableEq

def profile : Contract Profile where
  type := ⟨"tests::Profile"⟩
  toBody? p :=
    let age := match p.age with
      | none => .null
      | some n => .ofInt n.toNat
    some (.ofMembers
      [("name", .string p.name), ("age", age), ("tags", .array (p.tags.map .string)),
        ("score", .ofFloat p.score)])
  ofBody? b := do
    let [some name, age, some tags, some score] ← b.fields? ["name", "age", "tags", "score"] | none
    let age ← (age.getD .null).optional? (·.intWithin? 0 256)
    return ⟨← name.string?, age.map (fun i => UInt8.ofNat i.toNat), ← tags.list? Body.string?,
      ← score.float?⟩

structure Grid where
  cells : List ((UInt8 × UInt8) × Int8)

/-- Coordinates are no keys of an object, so only the empty grid has a body. -/
def grid : Contract Grid where
  type := ⟨"tests::Grid"⟩
  toBody? g := if g.cells.isEmpty then some (.ofMembers [("cells", .object [])]) else none
  ofBody? b := do
    let [some (.object [])] ← b.fields? ["cells"] | none
    return ⟨[]⟩

end BrokerClient.Catalog
