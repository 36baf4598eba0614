import Mathlib.Data.Rat.Defs
import ChildLearning.FUtilities
import ChildLearning.Lib.AssocList

namespace ChildLearning

open FUtilities AssocList

/-!
# `FSnapshotUtilities` and `FChildrenNode`

The SDK keeps what is below a location as nodes: it makes them from a JSON tree
(`FSnapshotUtilities.nodeFrom`), without what is empty at any depth, and makes a JSON value from
them again when a snapshot is asked for its value (`FNode.val`).  The way back is not the way
there: children whose keys are small numbers come back as an array, and the elements of an array
with large gaps as a dictionary.

A priority is checked and then left out; neither the app nor its data has any.  Texts are compared
character by character.
-/

/-- A JSON tree. -/
inductive Json where
  | null
  | bool (b : Bool)
  | number (n : ℚ)
  | string (s : String)
  | array (elems : List Json)
  | object (fields : List (String × Json))

/-- A stored node: an `FLeafNode`, or an `FChildrenNode` with its children in the order of their
    keys. -/
inductive FNode where
  | leafNode (value : Json)
  | childrenNode (children : List (String × FNode))

namespace FNode

/-- `FEmptyNode`. -/
def emptyNode : FNode := .childrenNode []

/-- `isEmpty`. -/
def isEmpty : FNode → Bool
  | .leafNode _            => false
  | .childrenNode children => children.isEmpty

/-- The nodes that `childEnumerator` goes through. -/
def childList : FNode → List (String × FNode)
  | .leafNode _            => []
  | .childrenNode children => children

end FNode

/-! ### From a tree to its node -/

namespace FValidation

/-- `isValidKey:`. -/
def isValidKey (key : String) : Bool :=
  !key.toList.isEmpty && key.toList.all fun c => !"[].#$/".toList.contains c

/-- `validateFrom:validDictionaryKey:withPath:`. -/
def validDictionaryKey (key : String) : Bool :=
  key == ".priority" || key == ".value" || key == ".sv" || isValidKey key

/-- `validateFrom:isValidLeafValue:withPath:`; `none` is the exception for keys beside the one
    of a server value. -/
def isValidLeafValue : Json → Option Bool
  | .object fields =>
    if (fields.lookup ".sv").isSome then
      if 1 < fields.length then none else some true
    else some false
  | .array _ => some false
  | _        => some true

/-- `validateFrom:isValidPriorityValue:withPath:`. -/
def isValidPriorityValue : Json → Bool
  | .bool _        => false
  | .array _       => false
  | .object fields => (fields.lookup ".sv").isSome && fields.length == 1
  | _              => true

end FValidation

open FValidation

/-- `hasPrefix:kPayloadMetadataPrefix`. -/
def hasMetadataPrefix (key : String) : Bool := key.toList.head? == some '.'

/-- `kFirebaseMaxObjectDepth`. -/
def maxObjectDepth : ℕ := 1000

namespace FImmutableSortedDictionary

/-- `fromDictionary:withComparator:`; `none` is the exception for two keys with the same
    place in the order. -/
def fromDictionary (children : List (String × FNode)) : Option (List (String × FNode)) :=
  let sorted := children.insertionSort fun a b => (compareKey a.1 b.1).isLE
  if sorted.IsChain fun a b => compareKey a.1 b.1 = .lt then some sorted else none

end FImmutableSortedDictionary

open FImmutableSortedDictionary

namespace FSnapshotUtilities

mutual

/-- `internalNodeFrom:priority:withValidationFrom:atDepth:path:`; `none` is an exception. -/
def internalNodeFrom (depth : ℕ) (val : Json) : Option FNode :=
  if maxObjectDepth < depth then none
  else
    match val with
    | .null => some .emptyNode
    | .object fields =>
      if (fields.lookup ".priority").any fun priority => !isValidPriorityValue priority then none
      else
        match fields.lookup ".value" with
        | some value =>
          -- the dictionary stands for a leaf
          (isValidLeafValue value).bind fun isLeafNode =>
            if isLeafNode then some (.leafNode value) else none
        | none =>
          (isValidLeafValue (.object fields)).bind fun isLeafNode =>
            if isLeafNode then some (.leafNode (.object fields))
            else (dictionaryChildren (depth + 1) fields).bind fun children =>
              (fromDictionary children).map .childrenNode
    | .array elems =>
      (arrayChildren (depth + 1) 0 elems).bind fun children =>
        (fromDictionary children).map .childrenNode
    | value => some (.leafNode value)

/-- The loop over the keys of a dictionary. -/
def dictionaryChildren (depth : ℕ) : List (String × Json) → Option (List (String × FNode))
  | [] => some []
  | (key, value) :: rest =>
    if !validDictionaryKey key then none
    else if hasMetadataPrefix key then dictionaryChildren depth rest
    else (internalNodeFrom depth value).bind fun childNode =>
      (dictionaryChildren depth rest).map fun children =>
        if childNode.isEmpty then children else (key, childNode) :: children

/-- The loop over the elements of an array, from index `i` on. -/
def arrayChildren (depth : ℕ) : ℕ → List Json → Option (List (String × FNode))
  | _, [] => some []
  | i, value :: rest => (internalNodeFrom depth value).bind fun childNode =>
      (arrayChildren depth (i + 1) rest).map fun children =>
        if childNode.isEmpty then children else (toString i, childNode) :: children

end

/-- `nodeFrom:`. -/
def nodeFrom (val : Json) : Option FNode := internalNodeFrom 0 val

end FSnapshotUtilities

open FSnapshotUtilities

/-! ### From a node to its value -/

/-- What `valForExport:` takes a key for: a number, unless it has a leading zero. -/
def keyAsInt (key : String) : Option ℕ :=
  if key.toList.head? = some '0' ∧ 1 < key.toList.length then none else intForString key

/-- The largest key, as long as all of them are numbers. -/
def maxKey {α : Type} : List (String × α) → Option ℕ
  | []               => some 0
  | (key, _) :: rest => (keyAsInt key).bind fun k => (maxKey rest).map fun m => max k m

/-- The end of `valForExport:NO` of an `FChildrenNode`, on the values of its children. -/
def exported (obj : List (String × Json)) : Json :=
  if obj.isEmpty then .null
  else
    match (maxKey obj).filter fun maxKey => maxKey < 2 * obj.length with
    | some maxKey =>
      .array ((List.range (maxKey + 1)).map fun i => (obj.lookup (toString i)).getD .null)
    | none => .object obj

mutual

/-- `val`, that is `valForExport:NO`. -/
def FNode.val : FNode → Json
  | .leafNode value        => value
  | .childrenNode children => exported (childVals children)

/-- The values of the children. -/
def childVals : List (String × FNode) → List (String × Json)
  | []                       => []
  | (key, childNode) :: rest => (key, childNode.val) :: childVals rest

end

/-- The children of a tree: the fields of an object, the elements of an array, nothing below a
    leaf.  A key that begins with a dot is no child, and an object with a ".value" is a leaf. -/
def Json.children : Json → List (String × Json)
  | .object fields =>
    if (fields.lookup ".value").isSome then []
    else fields.filter fun field => !hasMetadataPrefix field.1
  | .array elems => elems.zipIdx.map fun elem => (toString elem.2, elem.1)
  | _ => []

variable {depth : ℕ} {key : String} {value : Json}

end ChildLearning
