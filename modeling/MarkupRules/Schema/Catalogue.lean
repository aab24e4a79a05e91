/-
# Catalogues of stages

A catalogue keeps stages under identifiers, in the order in which they were first entered, and
each can be switched off and on. What stands for an identifier is decided by a resolver, and a
catalogue is one.

Key definitions: `Entry`, `Catalogue`, `Catalogue.resolve`, `Catalogue.standard`, `Resolver`.
-/
import MarkupRules.Schema.Stage

namespace MarkupRules.Schema

namespace Catalogue

/-- A stage in a catalogue. -/
structure Entry where
  /-- The stage. -/
  stage : Stage
  /-- What the stage does, for listings. -/
  description : String
  /-- Whether all who ask for the stage share one. -/
  isShared : Bool
  /-- Whether the stage is switched on. -/
  isEnabled : Bool

end Catalogue

/-- Stages under identifiers. -/
abbrev Catalogue := NamedList Catalogue.Entry

/-- Finds the stage of an identifier. -/
abbrev Resolver := String → Except StageError Stage

namespace Catalogue

/-- A catalogue without stages. -/
def empty : Catalogue := NamedList.empty

/-- Enters a stage that is made anew for all who ask. An earlier entry of the identifier is
replaced in its place. -/
def register (c : Catalogue) (id description : String) (stage : Stage) : Catalogue :=
  NamedList.insert c id ⟨stage, description, false, true⟩

/-- Enters a stage that all who ask share; it is described by its name. -/
def registerShared (c : Catalogue) (id : String) (stage : Stage) : Catalogue :=
  NamedList.insert c id ⟨stage, stage.name, true, true⟩

/-- Switches a stage on or off, and says whether there is one. -/
def setEnabled (c : Catalogue) (id : String) (isEnabled : Bool) : Catalogue × Bool :=
  match NamedList.get? c id with
  | some e => (NamedList.insert c id { e with isEnabled }, true)
  | none => (c, false)

/-- Removes a stage, and says whether there was one. -/
def unregister (c : Catalogue) (id : String) : Catalogue × Bool :=
  (NamedList.erase c id, NamedList.contains c id)

/-- The stage of an identifier, if there is one and it is switched on. -/
def create? (c : Catalogue) (id : String) : Option Stage :=
  ((NamedList.get? c id).filter Entry.isEnabled).map Entry.stage

/-- The stage of an identifier, or why there is none. -/
def resolve (c : Catalogue) : Resolver := fun id =>
  match NamedList.get? c id with
  | none => .error (.notFound id)
  | some e => if e.isEnabled then .ok e.stage else .error (.disabled id)

/-- The stages of a dialect with their descriptions, in order. -/
def stagesOf (files : Files) (dialect : Dialect) : List (Stage × String) :=
  [(.inclusion files dialect, "Resolve sch:include and sch:extends references"),
    (.expansion dialect, "Expand abstract patterns and rules"),
    (.compilation dialect, "Compile to a validation program")]

/-- Enters the stages of a dialect. -/
def registerDialect (files : Files) (c : Catalogue) (dialect : Dialect) : Catalogue :=
  (dialect.stageIds.zip (stagesOf files dialect)).foldl
    (fun c e => c.register e.1 e.2.2 e.2.1) c

/-- The catalogue of the stages of both dialects. -/
def standard (files : Files) : Catalogue :=
  [Dialect.legacy, Dialect.modern].foldl (registerDialect files) empty

end Catalogue

/-- Collects stages for a catalogue with or without the standard ones. -/
structure CatalogueBuilder where
  /-- Whether the standard stages are in the catalogue. -/
  withStandard : Bool
  /-- The other stages. -/
  others : Catalogue

namespace CatalogueBuilder

/-- Nothing but the standard stages. -/
def new : CatalogueBuilder := ⟨true, .empty⟩

/-- Says whether the standard stages are wanted. -/
def includeStandard (b : CatalogueBuilder) (withStandard : Bool) : CatalogueBuilder :=
  { b with withStandard }

/-- Adds a stage. It replaces a standard stage of the same identifier. -/
def register (b : CatalogueBuilder) (id description : String) (stage : Stage) :
    CatalogueBuilder :=
  { b with others := b.others.register id description stage }

/-- The catalogue. -/
def build (b : CatalogueBuilder) (files : Files) : Catalogue :=
  (if b.withStandard then Catalogue.standard files else .empty).merge b.others

end CatalogueBuilder

end MarkupRules.Schema
