/-
The parsed configuration (`include/config_parser.h`).

The hash maps are Mathlib's `AList`: a list of entries without repeated keys, whose order stands for the order of
iteration that the standard leaves open. The hash sets are lists that `List.insert` extends.
-/
import BlogServer.Core.Decimal
import Mathlib.Data.List.AList

namespace BlogServer.Config

/-- `std::unordered_map<std::string, V>` -/
abbrev HashMap (V : Type) := AList fun _ : Bytes => V

/-- a statement: its tokens, and the statements of its block -/
inductive Statement where
  | mk (tokens : List Bytes) (childBlock : Option (List Statement))

/-- `class NginxConfig` -/
structure NginxConfig where
  statements : List Statement
  portNumber : ℤ
  staticLocations : HashMap Bytes
  echoLocations : List Bytes
  statusLocations : List Bytes
  proxyLocations : HashMap (Bytes × ℤ)
  redirectLocations : HashMap Bytes
  healthLocations : List Bytes
  uploadFormLocations : List Bytes
  blogIps : HashMap Bytes
  blogPorts : HashMap Bytes
  blogUsernames : HashMap Bytes
  blogPasswords : HashMap Bytes
  handlerTypes : List Bytes

/-- a new `NginxConfig` -/
def NginxConfig.fresh : NginxConfig := ⟨[], -1, ∅, [], [], ∅, ∅, [], [], ∅, ∅, ∅, ∅, []⟩

end BlogServer.Config
