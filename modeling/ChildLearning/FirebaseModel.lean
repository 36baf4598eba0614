import ChildLearning.FirebaseNodes

namespace ChildLearning

open FSnapshotUtilities

/-!
# `FirebaseModel`

The records of the Realtime Database and how the app reads and writes them.  A snapshot is a key
with the node stored below it; `Users.initSnapshot` decodes the value of one child of the `User`
node and `userData` is the dictionary both registration paths write.  `initSnapshot_userData` is
the round trip through the SDK.

Texts are compared character by character.  `==` of Swift identifies canonically equivalent ones
(`swiftEq`); that they are written alike is the assumption `WrittenAlike`.
-/

namespace Json

/-- `as? String`. -/
def asString? : Json → Option String
  | .string s => some s
  | _         => none

/-- `as! [String:AnyObject]`; `none` is the failed forced cast, which traps. -/
def asObject : Json → Option (List (String × Json))
  | .object fields => some fields
  | _              => none

/-- `dict[key] as? String ?? ""`. -/
def stringField (key : String) (fields : List (String × Json)) : String :=
  ((fields.lookup key).bind asString?).getD ""

end Json

/-- A location of the database with the node below it. -/
structure DataSnapshot where
  key : String
  node : FNode

namespace DataSnapshot

/-- `snapshot.value`. -/
def value (snapshot : DataSnapshot) : Json := snapshot.node.val

/-- `snapshot.children`: the nodes that are stored, whatever the value looks like. -/
def children (snapshot : DataSnapshot) : List DataSnapshot :=
  snapshot.node.childList.map fun child => ⟨child.1, child.2⟩

end DataSnapshot

/-- An account as the screens keep it. -/
structure Users where
  name : String := ""
  email : String := ""
  password : String := ""
  deriving DecidableEq, Repr

namespace Users

/-- `init(snapshot:)`: every field is optional, the shape of the record is forced. -/
def initSnapshot (snapshot : DataSnapshot) : Option Users :=
  snapshot.value.asObject.map fun snapshotValue =>
    { name     := Json.stringField "name" snapshotValue
      email    := Json.stringField "email" snapshotValue
      password := Json.stringField "password" snapshotValue }

end Users

/-- The dictionary `data` of both `signupObserverFirebase`. -/
def userData (name email password : String) : List (String × Json) :=
  [("name", .string name), ("email", .string email), ("password", .string password)]

/-- The node that the SDK makes of it. -/
def accountNode (name email password : String) : FNode :=
  .childrenNode [("email", .leafNode (.string email)), ("name", .leafNode (.string name)),
    ("password", .leafNode (.string password))]

/-- `setValue(data)`. -/
theorem nodeFrom_userData (name email password : String) :
    nodeFrom (.object (userData name email password)) = some (accountNode name email password) := by
  have hname : FValidation.validDictionaryKey "name" = true := rfl
  have hemail : FValidation.validDictionaryKey "email" = true := rfl
  have hpassword : FValidation.validDictionaryKey "password" = true := rfl
  have h₁ : FUtilities.compareKey "name" "email" = .gt := rfl
  have h₂ : FUtilities.compareKey "email" "name" = .lt := rfl
  have h₃ : FUtilities.compareKey "name" "password" = .lt := rfl
  have h₄ : FUtilities.compareKey "email" "password" = .lt := rfl
  simp [nodeFrom, internalNodeFrom, maxObjectDepth, userData, accountNode, List.lookup_cons,
    FValidation.isValidLeafValue, dictionaryChildren, hasMetadataPrefix, FNode.isEmpty,
    FImmutableSortedDictionary.fromDictionary, hname, hemail, hpassword, h₁, h₂, h₃, h₄]

/-- **Round trip.** What a registration writes is read back unchanged. -/
theorem initSnapshot_userData (key name email password : String) :
    ∃ node, nodeFrom (.object (userData name email password)) = some node ∧
      Users.initSnapshot ⟨key, node⟩ = some ⟨name, email, password⟩ :=
  ⟨_, nodeFrom_userData name email password, rfl⟩

/-- The dictionary determines the account. -/
theorem userData_injective {a b : Users}
    (h : userData a.name a.email a.password = userData b.name b.email b.password) : a = b := by
  obtain ⟨node, hnode, ha⟩ := initSnapshot_userData "" a.name a.email a.password
  obtain ⟨node', hnode', hb⟩ := initSnapshot_userData "" b.name b.email b.password
  obtain rfl : node = node' := Option.some.inj (by rw [← hnode, ← hnode', h])
  exact Option.some.inj (ha.symm.trans hb)

/-- An entry of the word library. -/
structure Words where
  title : String := ""
  Name : String := ""
  deriving DecidableEq, Repr

/-! ### Texts -/

/-- `==` of two texts: they have the same canonical form. -/
def swiftEq (canonical : String → String) (a b : String) : Bool := canonical a == canonical b

/-- Canonically equivalent texts among these are written alike. -/
def WrittenAlike (canonical : String → String) (texts : List String) : Prop :=
  ∀ a ∈ texts, ∀ b ∈ texts, canonical a = canonical b → a = b

/-- Under the assumption `==` compares the texts themselves. -/
theorem WrittenAlike.swiftEq_eq {canonical : String → String} {texts : List String} {a b : String}
    (h : WrittenAlike canonical texts) (ha : a ∈ texts) (hb : b ∈ texts) :
    swiftEq canonical a b = (a == b) := by
  rw [swiftEq, Bool.eq_iff_iff, beq_iff_eq, beq_iff_eq]
  exact ⟨h a ha b hb, congrArg canonical⟩

end ChildLearning
