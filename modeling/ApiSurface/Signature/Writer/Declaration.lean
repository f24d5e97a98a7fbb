import ApiSurface.Signature.Writer.Hexadecimal
import ApiSurface.Signature.Writer.TypeRef

/-!
# Writing declarations

The compatible layout differs from the modern one: deprecation is a keyword, interfaces are written
as abstract classes are, supertypes have only blanks between them, the implicit superclass is
written, and methods that cannot be overridden anyway are not written as final.
-/

namespace ApiSurface
namespace Signature

def wordIf (applies : Bool) (word : String) : String :=
  if applies then word ++ " " else ""

namespace WriteSettings

/-- The access of an item, and the keyword for deprecation in the compatible layout. -/
def accessText (s : WriteSettings) (m : Modifiers) : String :=
  (match m.access.keyword? with
    | some keyword => keyword ++ " "
    | none => "") ++ wordIf (m.isDeprecated && s.compatible) "deprecated"

/-! ## Members -/

/-- A default behind the text that introduces it, if defaults are written. -/
def defaultText (s : WriteSettings) (lead : String) (value : Option String) : String :=
  match value with
  | some value => if s.defaultValues then lead ++ value else ""
  | none => ""

def parameterNameText (s : WriteSettings) (name : Option String) : String :=
  match name with
  | some name => if s.capabilities.parameterNames then " " ++ name else ""
  | none => ""

def parameterText (s : WriteSettings) (p : Parameter) : String :=
  s.annotationsText p.annotations ++ s.typeTextWith p.varargs true p.type ++
    s.parameterNameText p.name ++ s.defaultText " = " p.defaultValue

/-- The modifiers of a method.  The compatible layout leaves out `final` where the class rules out
overriding. -/
def methodModifiersText (s : WriteSettings) (c : ClassDecl) (m : Modifiers) : String :=
  let implied := s.compatible && (c.kind == .enumeration || c.modifiers.isFinal)
  s.accessText m ++ wordIf m.isDefault "default" ++ wordIf m.isStatic "static" ++
    wordIf (m.isFinal && !implied) "final" ++ wordIf m.isAbstract "abstract"

def throwsText (s : WriteSettings) : List TypeRef → String
  | [] => ""
  | types => " throws " ++ Text.join ", " (types.map s.nonNullTypeText)

/-- The line of a method or constructor of a class. -/
def methodText (s : WriteSettings) (c : ClassDecl) (m : Method) : String :=
  (if m.isConstructor then "    ctor " else "    method ") ++
    s.itemAnnotationsText m.annotations m.modifiers.isDeprecated ++
    s.methodModifiersText c m.modifiers ++
    wordIf (!m.typeParameters.isEmpty) (s.typeParametersText m.typeParameters) ++
    (match m.returnType with
      | some type => s.typeText type ++ " "
      | none => "") ++
    m.name ++ "(" ++ Text.join ", " (m.parameters.map s.parameterText) ++ ")" ++
    s.throwsText m.throws ++ s.defaultText " default " m.defaultValue ++ ";\n"

def fieldModifiersText (s : WriteSettings) (m : Modifiers) : String :=
  s.accessText m ++ wordIf m.isStatic "static" ++ wordIf m.isFinal "final" ++
    wordIf m.isTransient "transient" ++ wordIf m.isVolatile "volatile"

/-- The end of the line of a field; a value is always written, in the compatible layout also in
hexadecimal. -/
def fieldValueText (s : WriteSettings) (f : Field) : String :=
  match f.value with
  | none => ";\n"
  | some value =>
    " = " ++ value ++ ";" ++
      (match if s.compatible then Hexadecimal.comment? f.type value else none with
        | some comment => " // " ++ comment
        | none => "") ++ "\n"

def fieldText (s : WriteSettings) (f : Field) : String :=
  (if f.isEnumConstant then "    enum_constant " else "    field ") ++
    s.itemAnnotationsText f.annotations f.modifiers.isDeprecated ++
    s.fieldModifiersText f.modifiers ++ s.typeTextWith false (!f.isEnumConstant) f.type ++ " " ++
    f.name ++ s.fieldValueText f

/-! ## Classes -/

def writesAbstract (s : WriteSettings) (c : ClassDecl) : Bool :=
  match c.kind with
  | .interface => s.compatible
  | .annotationType => false
  | .ordinary => c.modifiers.isAbstract
  | .enumeration => c.modifiers.isAbstract

def classModifiersText (s : WriteSettings) (c : ClassDecl) : String :=
  s.accessText c.modifiers ++ wordIf c.modifiers.isStatic "static" ++
    wordIf c.modifiers.isFinal "final" ++ wordIf (s.writesAbstract c) "abstract" ++
    wordIf c.modifiers.isSealed "sealed"

/-- Whether a superclass is written: the implicit one only in the compatible layout. -/
def writesSuperclass (s : WriteSettings) (t : TypeRef) : Bool :=
  s.compatible || t.name != TypeRef.object || !t.arguments.isEmpty

/-- The types behind `extends`. -/
def extendedTypes (s : WriteSettings) (c : ClassDecl) : List TypeRef :=
  match c.kind with
  | .interface => if s.compatible then [] else c.interfaces
  | .annotationType => []
  | .ordinary => c.superclass.toList.filter s.writesSuperclass
  | .enumeration => c.superclass.toList.filter s.writesSuperclass

/-- The types behind `implements`. -/
def implementedTypes (s : WriteSettings) (c : ClassDecl) : List TypeRef :=
  match c.kind with
  | .interface => if s.compatible then c.interfaces else []
  | .annotationType => c.interfaces
  | .ordinary => c.interfaces
  | .enumeration => c.interfaces

/-- Supertypes behind the word that introduces them, if there are any. -/
def supertypesText (s : WriteSettings) (lead : String) : List TypeRef → String
  | [] => ""
  | types => lead ++ Text.join (if s.compatible then " " else ", ") (types.map s.nonNullTypeText)

/-- The members of a class that the view shows, a line each. -/
def membersText (s : WriteSettings) (c : ClassDecl) : String :=
  let methods := s.order.sortMethods c.constructors ++ s.order.sortMethods c.methods
  String.join ((methods.filter s.view.showsMethod).map (s.methodText c)) ++
    String.join (((s.order.sortFields c.fields).filter s.view.showsField).map s.fieldText)

def classText (s : WriteSettings) (c : ClassDecl) : String :=
  "  " ++ s.itemAnnotationsText c.annotations c.modifiers.isDeprecated ++
    s.classModifiersText c ++ c.kind.keyword ++ " " ++ c.name ++
    s.typeParametersText c.typeParameters ++ s.supertypesText " extends " (s.extendedTypes c) ++
    s.supertypesText " implements " (s.implementedTypes c) ++ " " ++ Token.openBrace ++ "\n" ++
    s.membersText c ++ "  " ++ Token.closeBrace ++ "\n\n"

end WriteSettings

end Signature
end ApiSurface
