/-! Elements of a binding form, the shapes that tell context values, keys and
definitions apart, and the text in which an element is written. -/
namespace KeyForm

inductive Element where
  | symbol (name : String)
  | keyword (name : String)
  | str (text : String)
  | vector (items : List Element)
  | list (items : List Element)
  | function (name : String)
  | separator
  | clearingSeparator
  deriving Repr, Inhabited

namespace Element

mutual

def same : Element → Element → Bool
  | .symbol a, .symbol b | .keyword a, .keyword b | .str a, .str b
  | .function a, .function b => a == b
  | .vector as, .vector bs | .list as, .list bs => sameItems as bs
  | .separator, .separator | .clearingSeparator, .clearingSeparator => true
  | _, _ => false

def sameItems : List Element → List Element → Bool
  | [], [] => true
  | a :: as, b :: bs => a.same b && sameItems as bs
  | _, _ => false

end

mutual

theorem sameIff : (a b : Element) → (a.same b = true ↔ a = b)
  | .symbol _, b | .keyword _, b | .str _, b | .function _, b | .separator, b
  | .clearingSeparator, b => by cases b <;> simp [same]
  | .vector _, b | .list _, b => by cases b <;> simp [same, sameItemsIff]

theorem sameItemsIff : (as bs : List Element) → (sameItems as bs = true ↔ as = bs)
  | [], bs => by cases bs <;> simp [sameItems]
  | _ :: _, bs => by cases bs <;> simp [sameItems, sameIff, sameItemsIff]

end

instance : DecidableEq Element := fun a b => decidable_of_iff _ (sameIff a b)

def isSymbol : Element → Bool
  | .symbol _ => true
  | _ => false

def isList : Element → Bool
  | .list _ => true
  | _ => false

def isSeparator : Element → Bool
  | .separator | .clearingSeparator => true
  | _ => false

def isKeyLiteral : Element → Bool
  | .str _ | .vector _ => true
  | _ => false

def isTarget : Element → Bool
  | .symbol _ => true
  | .list items => !items.isEmpty && items.all isSymbol
  | _ => false

def isTrue (e : Element) : Bool := e == .symbol "t"

def isNil (e : Element) : Bool := e == .symbol "nil" || e == .list []

def toTargets : Element → Element
  | .list items => .list items
  | e => .list [e]

def shapeName : Element → String
  | .symbol _ => "identifier"
  | .keyword _ => "option name"
  | .str _ => "string"
  | .vector _ => "vector"
  | .list _ => "list"
  | .function _ => "function reference"
  | .separator => "separator"
  | .clearingSeparator => "clearing separator"

def escaped : List Char → List Char
  | [] => []
  | '"' :: cs => '\\' :: '"' :: escaped cs
  | '\\' :: cs => '\\' :: '\\' :: escaped cs
  | '\n' :: cs => '\\' :: 'n' :: escaped cs
  | '\t' :: cs => '\\' :: 't' :: escaped cs
  | c :: cs => c :: escaped cs

mutual

def chars : Element → List Char
  | .symbol name => name.toList
  | .keyword name => ':' :: name.toList
  | .str text => '"' :: escaped text.toList ++ ['"']
  | .vector items => '[' :: spaced items ++ [']']
  | .list items => '(' :: spaced items ++ [')']
  | .function name => '#' :: '\'' :: name.toList
  | .separator => ['|']
  | .clearingSeparator => ['|', '|']

def spaced : List Element → List Char
  | [] => []
  | e :: rest => chars e ++ spacedRest rest

def spacedRest : List Element → List Char
  | [] => []
  | e :: rest => ' ' :: chars e ++ spacedRest rest

end

def text (e : Element) : String := String.ofList e.chars

end Element

def formText (elements : List Element) : String := String.ofList (Element.spaced elements)

end KeyForm
