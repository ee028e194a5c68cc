import PhpRename.Pattern.Class
import PhpRename.Unicode.Letter
import PhpRename.Unicode.Script

/-!
# Properties of characters by name

A pattern may ask for a property by its name: a general category, a script, or one of some other
properties. Case, spaces, dashes and underscores of a name do not matter, nor does an `is` in
front of it.

* `property?`: the characters with a property that is written as one name.
* `propertyValue?`: the characters for which a property has a value.
-/

namespace PhpRename.Pattern

open Unicode

/-- The form of a name in which nothing is left that does not matter. -/
def plainName (name : String) : String :=
  let cs := name.toList
  let (marked, rest) := match cs with
    | i :: s :: rest => if (i = 'i' ∨ i = 'I') ∧ (s = 's' ∨ s = 'S') then (true, rest) else (false, cs)
    | _ => (false, cs)
  let kept := rest.filter fun c => c ≠ ' ' && c ≠ '_' && c ≠ '-' && c.toNat < 0x80
  let low := String.ofList (kept.map fun c => if 'A' ≤ c ∧ c ≤ 'Z' then CharClass.swapAscii c else c)
  if marked && low = "c" then "isc" else low

/-- Names of the general categories, with the short names of the categories they cover. -/
def categoryNames : List (List String × List String) :=
  [(["lu", "uppercaseletter"], ["lu"]), (["ll", "lowercaseletter"], ["ll"]),
   (["lt", "titlecaseletter"], ["lt"]), (["lc", "casedletter"], ["lu", "ll", "lt"]),
   (["lm", "modifierletter"], ["lm"]), (["lo", "otherletter"], ["lo"]),
   (["l", "letter"], ["lu", "ll", "lt", "lm", "lo"]),
   (["mn", "nonspacingmark"], ["mn"]), (["mc", "spacingmark"], ["mc"]),
   (["me", "enclosingmark"], ["me"]), (["m", "mark", "combiningmark"], ["mn", "mc", "me"]),
   (["nd", "decimalnumber", "digit"], ["nd"]), (["nl", "letternumber"], ["nl"]),
   (["no", "othernumber"], ["no"]), (["n", "number"], ["nd", "nl", "no"]),
   (["pc", "connectorpunctuation"], ["pc"]), (["pd", "dashpunctuation"], ["pd"]),
   (["ps", "openpunctuation"], ["ps"]), (["pe", "closepunctuation"], ["pe"]),
   (["pi", "initialpunctuation"], ["pi"]), (["pf", "finalpunctuation"], ["pf"]),
   (["po", "otherpunctuation"], ["po"]),
   (["p", "punctuation", "punct"], ["pc", "pd", "ps", "pe", "pi", "pf", "po"]),
   (["sm", "mathsymbol"], ["sm"]), (["sc", "currencysymbol"], ["sc"]),
   (["sk", "modifiersymbol"], ["sk"]), (["so", "othersymbol"], ["so"]),
   (["s", "symbol"], ["sm", "sc", "sk", "so"]),
   (["zs", "spaceseparator"], ["zs"]), (["zl", "lineseparator"], ["zl"]),
   (["zp", "paragraphseparator"], ["zp"]), (["z", "separator"], ["zs", "zl", "zp"]),
   (["cc", "control", "cntrl"], ["cc"]), (["cf", "format"], ["cf"]),
   (["co", "privateuse"], ["co"])]

/-- The characters of some categories. -/
def ofCategories (shorts : List String) : CharClass :=
  .all (shorts.map fun short => .table (category short))

/-- The characters that have a category. -/
def assigned : CharClass :=
  .all (categories.map fun (_, table) => .table table)

/-- The characters of the general category with this plain name. -/
def categoryClass? (name : String) : Option CharClass :=
  match name with
  | "any" => some (.complement .nothing)
  | "assigned" => some assigned
  | "ascii" => some .ascii
  | "cn" | "unassigned" => some (.complement assigned)
  | "c" | "other" => some (.union (ofCategories ["cc", "cf", "co"]) (.complement assigned))
  | _ => (categoryNames.find? (·.1.contains name)).map fun (_, shorts) => ofCategories shorts

/-- The characters of the script with this plain name. -/
def scriptClass? (name : String) : Option CharClass :=
  (script? name).map .table

/-- The characters with a property that they either have or have not, by its plain name. -/
def flag? (name : String) : Option CharClass :=
  let lower := CharClass.union (ofCategories ["ll"]) (.table lowerSigns)
  let upper := CharClass.union (ofCategories ["lu"]) (.table upperSigns)
  let letters := ofCategories ["lu", "ll", "lt", "lm", "lo", "nl"]
  match name with
  | "alphabetic" | "alpha" =>
    some (.all [letters, .table lowerSigns, .table upperSigns, .table alphabeticMarks])
  | "lowercase" | "lower" => some lower
  | "uppercase" | "upper" => some upper
  | "cased" => some (.all [lower, upper, ofCategories ["lt"]])
  | "whitespace" | "wspace" | "space" => some .space
  | "asciihexdigit" | "ahex" => named? "xdigit"
  | "hexdigit" | "hex" => some (.table hexDigits)
  | "ideographic" | "ideo" => some (.table ideographs)
  | "emoji" => some (.table emoji)
  | "dash" => some (.table dashes)
  | "joincontrol" | "joinc" => some (.range 0x200C 0x200D)
  | _ => none
where
  named? := CharClass.named?

/-- The characters with the property of this name. -/
def property? (name : String) : Option CharClass :=
  let plain := plainName name
  (flag? plain <|> categoryClass? plain) <|> scriptClass? plain

/-- The characters for which the property `name` has the value `value`. -/
def propertyValue? (name value : String) : Option CharClass :=
  match plainName name with
  | "generalcategory" | "gc" => categoryClass? (plainName value)
  | "script" | "sc" | "scriptextensions" | "scx" => scriptClass? (plainName value)
  | _ => none

end PhpRename.Pattern
