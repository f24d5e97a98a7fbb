/-!
# Values of settings files

Settings files are written in TOML.  A value of a kind that no setting uses is kept as it is
written.
-/

namespace ApiSurface
namespace Toml

inductive Value where
  | string (contents : String)
  | boolean (value : Bool)
  | integer (value : Int)
  /-- A number with a fraction or an exponent, as written. -/
  | float (source : String)
  /-- A date, a time or both, as written. -/
  | moment (source : String)
  | array (items : List Value)
  | table (fields : List (String × Value))

namespace Value

def field? (fields : List (String × Value)) (name : String) : Option Value :=
  (fields.find? fun f => f.1 == name).map Prod.snd

end Value

end Toml
end ApiSurface
