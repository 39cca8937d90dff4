import FleetSync.Scope

/-!
# Mappings

A mapping says which cluster a resource belongs to. Its key is the identity of the resource; the
rest is the level of the resource's scope and the cluster.
-/

namespace FleetSync

/-- The identity a mapping is filed under. -/
structure MappingKey where
  kind : Kind
  name : String
  namespaceName : String
  account : String
  project : String
  environment : Option String
deriving DecidableEq, Repr, Inhabited

/-- Which cluster a resource belongs to. -/
structure Mapping where
  level : Level
  kind : Kind
  name : String
  namespaceName : String
  account : String
  cluster : String
  project : String
  environment : Option String
deriving DecidableEq, Repr, Inhabited

/-- The key as a value. -/
def MappingKey.encode (k : MappingKey) : Json := .obj [
  ("resource_type", k.kind.encode),
  ("resource_name", .str k.name),
  ("resource_namespace", .str k.namespaceName),
  ("account_name", .str k.account),
  ("project_name", .str k.project),
  ("environment_name", .ofOption .str k.environment)]

namespace Mapping

/-- The key of a mapping. -/
def key (m : Mapping) : MappingKey :=
  ⟨m.kind, m.name, m.namespaceName, m.account, m.project, m.environment⟩

/-- Reads a mapping. -/
def decode : Decoder Mapping :=
  .record ["heirarchy", "resource_type", "resource_name", "resource_namespace", "account_name",
      "cluster_name", "project_name", "environment_name"] fun r =>
    Mapping.mk <$> r.required "heirarchy" (.choice Level.variants)
      <*> r.required "resource_type" Kind.decode <*> r.required "resource_name" .text
      <*> r.required "resource_namespace" .text <*> r.required "account_name" .text
      <*> r.required "cluster_name" .text <*> r.required "project_name" .text
      <*> r.optional "environment_name" .text

/-- A mapping as a value. -/
def encode (m : Mapping) : Json := .obj [
  ("heirarchy", .str m.level.name),
  ("resource_type", m.kind.encode),
  ("resource_name", .str m.name),
  ("resource_namespace", .str m.namespaceName),
  ("account_name", .str m.account),
  ("cluster_name", .str m.cluster),
  ("project_name", .str m.project),
  ("environment_name", .ofOption .str m.environment)]

end Mapping

end FleetSync
