/-
# The text of a value

Collections are written with their elements, and may contain themselves.  While a collection is
being written it is *open*; an occurrence of an open collection is written as an elided one, so
that the text is finite.  A collection that occurs twice without containing itself is written in
full each time.
-/
import Lox.Value.Heap

namespace Lox

/-- How the elements of a collection are put together. -/
structure Listing where
  opening : String
  closing : String
  separator : String
  items : List Value

/-- The text of a collection with the texts of its elements. -/
def Listing.join (listing : Listing) (texts : List String) : String :=
  listing.opening ++ listing.separator.intercalate texts ++ listing.closing

/-- The text of a collection inside itself. -/
def Listing.elided (listing : Listing) : String := listing.opening ++ "..." ++ listing.closing

/-- The text of a value that is not an instance. -/
def Value.atomText : Value → String
  | .nil => "nil"
  | .boolean value => if value then "true" else "false"
  | .number value => Decimal.numberText value
  | .string value => value
  | .callable c => c.text
  | .inst _ => ""

namespace Heap

/-- The elements of an instance that holds a collection. -/
def listing? (heap : Heap) (id : InstanceId) : Option Listing :=
  match heap.payload? id with
  | some (.list storage) => some ⟨"[", "]", ", ", (heap.storages[storage]?.getD #[]).toList⟩
  | some (.linkedList chain) => some ⟨"(", ")", " ", heap.nodes.toList chain⟩
  | _ => none

/-- The text of an instance that holds no collection. -/
def plainText (heap : Heap) (id : InstanceId) : String :=
  ((heap.class? id).map Class.name).getD "" ++ " instance"

/-- The text of a value inside the open collections.  Collections nest at most `depth` deep. -/
def textWithin (heap : Heap) : (depth : Nat) → (opened : List InstanceId) → Value → String
  | depth, opened, .inst id =>
    match heap.listing? id with
    | none => heap.plainText id
    | some listing =>
      if opened.contains id then listing.elided
      else
        match depth with
        | 0 => ""
        | depth + 1 => listing.join (listing.items.map (heap.textWithin depth (id :: opened)))
  | _, _, value => value.atomText

/-- The text of a value.  The open collections are distinct instances, so there are at most as
many as instances. -/
def text (heap : Heap) (value : Value) : String :=
  heap.textWithin (heap.instances.size + 1) [] value

end Heap

end Lox
