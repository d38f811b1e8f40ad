import Readback.Conversion
import Readback.Graph.Types
import Readback.Number.Decimal
import Readback.Operator
import Readback.Text.Quoted

/-! # Attributes of operations

An attribute is a constant attached to an operation under a name. -/

namespace Readback

/-- A constant attached to an operation. -/
inductive Attribute where
  | integer (value : Int)
  | float (value : Binary64)
  | text (value : String)
  | bool (value : Bool)
  | type (value : TypeId)
  | symbol (value : String)
  | conversion (value : Conversion)
  | predicate (value : Predicate)
  | texts (value : List String)
  | unit
deriving DecidableEq, Inhabited

/-- The text of a type id. -/
def TypeId.text (id : TypeId) : String := "ty" ++ toString id

namespace Attribute

/-- The content of a text or symbol. -/
def text? : Attribute → Option String
  | .text s => some s
  | .symbol s => some s
  | _ => none

/-- The id of a type. -/
def type? : Attribute → Option TypeId
  | .type id => some id
  | _ => none

/-- The items of a list of texts. -/
def texts? : Attribute → Option (List String)
  | .texts items => some items
  | _ => none

/-- The text of an attribute, types shown by their ids. -/
def display : Attribute → String
  | .integer value => toString value
  | .float value => value.text .up
  | .text value => listingQuote value
  | .bool value => if value then "true" else "false"
  | .type value => TypeId.text value
  | .symbol value => "@" ++ value
  | .conversion value => value.name
  | .predicate value => value.name
  | .texts value => listingQuotes value
  | .unit => "unit"

end Attribute

/-! ### Names under which attributes are kept -/

namespace AttrName

/-- The symbol that an operation defines. -/
def symName : String := "sym_name"

/-- The type of a function. -/
def functionType : String := "function_type"

/-- The names of the parameters of a function. -/
def argNames : String := "arg_names"

/-- The value of a constant. -/
def value : String := "value"

/-- The conversion of a cast. -/
def kind : String := "kind"

/-- The predicate of a comparison. -/
def predicate : String := "predicate"

/-- The function that is called or referred to. -/
def callee : String := "callee"

/-- The global that is referred to. -/
def name : String := "name"

/-- The type of a field or alias. -/
def type : String := "type"

/-- The storage class of a variable. -/
def storageClass : String := "storage_class"

end AttrName

end Readback
