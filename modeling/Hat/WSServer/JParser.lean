import Mathlib.Data.List.Basic

/-!
# Lists of pairs in a property tree

A JSON text is read into a property tree.  A member of an object is a child under its
name, an element of an array a child under the empty key, and a missing child is an
exception.
-/

namespace Hat

inductive PTree
  | node (data : String) (children : List (String × PTree))

namespace PTree

def data : PTree → String
  | node data _ => data

def children : PTree → List (String × PTree)
  | node _ children => children

/-- The first child under the key. -/
def getChild (key : String) (tree : PTree) : Option PTree :=
  (tree.children.find? fun child => child.1 = key).map Prod.snd

def get (key : String) (tree : PTree) : Option String := (tree.getChild key).map data

end PTree

/-- The values under two keys of every child. -/
def jParser (k1 k2 : String) (pt : PTree) : Option (List (String × String)) :=
  pt.children.mapM fun child =>
    (child.2.get k1).bind fun first => (child.2.get k2).map fun second => (first, second)

end Hat
