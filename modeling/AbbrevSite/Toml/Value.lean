import AbbrevSite.Decimal.Shortest
import AbbrevSite.Toml.Datetime
import AbbrevSite.Toml.Table

/-! The values of a settings file. -/
namespace AbbrevSite.Toml

inductive Value where
  | string (s : String)
  | integer (n : Int)
  | float (x : Double)
  | boolean (b : Bool)
  | datetime (d : Datetime)
  | array (items : List Value)
  /-- In a file just read the entries are in the order of the file, in settings in that of the keys. -/
  | table (entries : List (String × Value))

namespace Value

def string? : Value → Option String
  | string s => some s
  | _ => none

def isTable : Value → Bool
  | table _ => true
  | _ => false

def get? (v : Value) (key : String) : Option Value :=
  match v with
  | table entries => Table.get? entries key
  | _ => none

end Value
end AbbrevSite.Toml
