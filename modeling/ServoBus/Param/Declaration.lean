import ServoBus.Checked
import ServoBus.Param.Value

/-!
# Declarations and settings

A device declares the parameters it knows. A configuration gives texts for some of
them by name, which are checked against the declarations in the order given: the
first text that names no declaration, or that is no value of the declared kind, is
an error for the whole configuration. Each setting keeps the name under which it was
given, together with the declared number.
-/

namespace ServoBus.Param

structure Declaration where
  name : String
  id : UInt32
  kind : Kind
  default? : Option String := none
  comment? : Option String := none
deriving DecidableEq, Repr

/-- What the manual of a device says about a parameter. -/
structure ManualEntry where
  name : String
  default : String
  comment : String
deriving DecidableEq, Repr

/-- A parameter of a slave with its value. -/
structure Setting where
  id : UInt32
  name : String
  value : Value
deriving DecidableEq, Repr

/-- The first declaration of a name. -/
def find? (declarations : List Declaration) (name : String) : Option Declaration :=
  declarations.find? (·.name == name)

namespace Setting

/-- The setting that a name and a text make, if the declarations allow it. -/
def read (device : String) (declarations : List Declaration) (name text : String) :
    Checked Setting :=
  match find? declarations name with
  | none =>
    Checked.reject s!"unknown modparam {name} for slave {device}" (.unknownParam device name)
  | some d =>
    match Value.ofText? d.kind text with
    | none =>
      Checked.reject s!"invalid value {Text.quote text} for modparam {name} of slave {device}"
        (.invalidParam name text)
    | some v => pure ⟨d.id, name, v⟩

def readAll (device : String) (declarations : List Declaration)
    (given : List (String × String)) : Checked (List Setting) :=
  given.mapM fun (name, text) => read device declarations name text

/-- The value of the first setting of a number. -/
def value? (settings : List Setting) (id : UInt32) : Option Value :=
  (settings.find? (·.id == id)).map (·.value)

end Setting

end ServoBus.Param
