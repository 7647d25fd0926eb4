import GeneratorKit.Code.Constant
import GeneratorKit.Code.TypeRef
import GeneratorKit.Emission.Lines

set_option autoImplicit false

/-!
# Declarations

Fields, properties, local variables and the parts they are made of.
-/
namespace GeneratorKit.Emission
open Code

def accessibility (a : Accessibility) : List Edit :=
  match a.keyword? with
  | some keyword => [.text keyword]
  | none => [.refuse (.unmappedAccessibility a)]

def typeName (t : TypeName) : List Edit := [.text t.text]

def constant (c : Constant) : List Edit := [.rendering (.of c.parts)]

def argument (t : TypeName) (name : String) : List Edit := typeName t ++ [.text " ", .text name]

def initializer : Option String → List Edit
  | some value => [.text " = ", .text value]
  | none => []

def fieldWith (a : Accessibility) (t : TypeName) (name : String) (value : Option String) :
    List Edit :=
  .indent :: accessibility a ++ .text " " :: argument t name ++ initializer value ++
    [.text ";", newLine]

def field (t : TypeName) (name : String) (value : Option String) : List Edit :=
  fieldWith .privateAccess t name value

def propertyWith (a : Accessibility) (t : TypeName) (name : String) (value : Option String) :
    List Edit :=
  .indent :: accessibility a ++ .text " " :: argument t name ++ [.text " \x7b get; set; \x7d"] ++
    (if value.isSome then initializer value ++ [.text ";"] else []) ++ [newLine]

def property (t : TypeName) (name : String) (value : Option String) : List Edit :=
  propertyWith .publicAccess t name value

def localVariable (t : TypeName) (name : String) (value : Option String) : List Edit :=
  .indent :: argument t name ++ initializer value ++ [.text ";", newLine]

def var (name : String) (value : Option String) : List Edit := localVariable (.literal "var") name value

end GeneratorKit.Emission
