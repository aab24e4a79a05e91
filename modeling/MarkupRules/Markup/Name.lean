/-
# Names, attributes and namespace bindings

A name of an element or attribute is a local part in a namespace; the label in front of the
colon only says how it is written.

Key definitions: `Name`, `Attribute`, `Binding`, `Element`.
-/

namespace MarkupRules.Markup

/-- The address under which the two namespaces of markup itself are named. -/
def reservedHome : String := "http://www.w3.org/"

/-- The namespace to which the label `xml` is always bound. -/
def xmlUri : String := reservedHome ++ "XML/1998/namespace"

/-- The label that is always bound to `xmlUri`. -/
def xmlLabel : String := "xml"

/-- A name of an element or attribute. -/
structure Name where
  /-- The namespace, if the name is in one. -/
  uri : Option String
  /-- The label written in front of the local part. -/
  label : Option String
  /-- The part behind the label. -/
  localPart : String
  deriving DecidableEq, Repr

namespace Name

/-- A name in no namespace. -/
def plain (localPart : String) : Name :=
  ⟨none, none, localPart⟩

/-- A name in a namespace, written with a label. -/
def within (uri label localPart : String) : Name :=
  ⟨some uri, some label, localPart⟩

/-- Whether a name has the given namespace and local part. -/
def isIn (n : Name) (uri localPart : String) : Bool :=
  n.localPart == localPart && n.uri == some uri

/-- Whether two names have the same namespace and local part. -/
def same (a b : Name) : Bool :=
  a.localPart == b.localPart && a.uri == b.uri

/-- The name as it is written. -/
def written (n : Name) : String :=
  match n.label with
  | some label => label ++ ":" ++ n.localPart
  | none => n.localPart

end Name

/-- An attribute of an element. -/
structure Attribute where
  /-- The name. -/
  name : Name
  /-- The value. -/
  value : String
  deriving DecidableEq, Repr

/-- A namespace declared under a label, or as the default without one. -/
structure Binding where
  /-- The label, none for the default namespace. -/
  label : Option String
  /-- The namespace. -/
  uri : String
  deriving DecidableEq, Repr

/-- What an element carries besides its children. -/
structure Element where
  /-- The name. -/
  name : Name
  /-- The attributes in order. -/
  attributes : List Attribute
  /-- The namespaces declared on this element. -/
  bindings : List Binding
  deriving DecidableEq, Repr

/-- Whether an attribute has the given local part and is in no namespace. -/
def Attribute.isPlain (a : Attribute) (localPart : String) : Bool :=
  a.name.uri.isNone && a.name.localPart == localPart

/-- The value of an attribute in no namespace. -/
def Element.attribute? (e : Element) (localPart : String) : Option String :=
  (e.attributes.find? fun a => a.isPlain localPart).map Attribute.value

/-- An element without its attribute of the given local part in no namespace. -/
def Element.withoutAttribute (e : Element) (localPart : String) : Element :=
  { e with attributes := e.attributes.filter fun a => !a.isPlain localPart }

end MarkupRules.Markup
