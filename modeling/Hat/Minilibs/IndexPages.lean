import Hat.Core.SortedMap
import Hat.Minilibs.MParams
import Mathlib.Data.String.Basic

/-!
# Pages of the index

The index holds a description for each published name.  It is shown as an XML page, which
copies a description with an equal sign as the attributes of its item, and as a JSON page, which
takes such a description apart.
-/

namespace Hat.IndexPages

abbrev Index := SortedMap String String

def xmlItem (entry : String × String) : String :=
  if '=' ∉ entry.2.toList then "<item name=\"" ++ entry.1 ++ "\" value=\"" ++ entry.2 ++ "\"/>\n"
  else "<item name=\"" ++ entry.1 ++ "\" " ++ entry.2 ++ "/>\n"

def pageHeader : String := "<?xml version=\"1.0\" ?>\n" ++ "<list name=\"index\">\n"

def xmlIndex (index : Index) : String :=
  pageHeader ++ String.join (index.entries.map xmlItem) ++ "</list>\n"

/-- One piece of a description.  Only the first piece of all opens the braces. -/
def jsonPair (i : ℕ) (piece : String) : String :=
  if piece = "" then ""
  else
    match NameList.init [] piece '=' with
    | [key, value] => (if i = 0 then "\x7b\"" else ",\"") ++ key ++ "\":" ++ value
    | _ => ""

def jsonItem (src : String) : String :=
  if '=' ∉ src.toList then "\"" ++ src ++ "\""
  else
    String.join ((NameList.init [] src ' ').mapIdx jsonPair) ++ "\x7d"

def jsonMember (entry : String × String) : String :=
  "   \x7b\"" ++ entry.1 ++ "\":" ++ jsonItem entry.2 ++ "\x7d"

def jsonIndex (index : Index) : String :=
  "\x7b\"list\": [\n" ++ ",\n".intercalate (index.entries.map jsonMember) ++ "  ]\n" ++ "\x7d\n"

end Hat.IndexPages
