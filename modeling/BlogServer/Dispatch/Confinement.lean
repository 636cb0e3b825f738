/-
Which files a static location gives access to.

The file that is opened is the root of the location followed by what is left of the URI. Nothing takes `..` out of a
URI: the file stays inside the root exactly when no beginning of that rest goes up more often than down
(`static_confined_iff`).

- `static_escape`: a file beside the root is asked for.
-/
import BlogServer.Core.LexicalPath
import BlogServer.Dispatch.Registration

namespace BlogServer.Dispatch

open BlogServer.Byte BlogServer.Config BlogServer.LexicalPath

/-! ## Paths of bytes -/

/-- the segments between slashes -/
def segments (path : Bytes) : List Bytes := path.splitOn SLASH

/-- what a segment stands for; an empty one, between repeated slashes, for nothing -/
def component (segment : Bytes) : Component Bytes :=
  if segment = [] ∨ segment = ascii "." then .here else if segment = ascii ".." then .up else .name segment

def components (path : Bytes) : List (Component Bytes) := (segments path).map component

/-- the file name is the root, followed by a path that is resolved without climbing above it -/
def Inside (root file : Bytes) : Prop := ∃ appended, file = root ++ appended ∧ Confined (components appended)

/-- a segment that names a file or directory -/
def isName (segment : Bytes) : Bool := segment ≠ [] && segment ≠ ascii "." && segment ≠ ascii ".."

/-- no beginning of the path has more segments `..` than names -/
def NeverAbove (path : Bytes) : Prop :=
  ∀ start, start <+: segments path → start.count (ascii "..") ≤ start.countP isName

theorem component_isUp (segment : Bytes) : (component segment).isUp = (segment == ascii "..") := by
  unfold component
  split_ifs with hhere hup
  · rcases hhere with rfl | rfl
    · decide
    · decide
  · rw [hup]
    decide
  · symm
    simpa [Component.isUp] using hup

theorem component_isName (segment : Bytes) : (component segment).isName = isName segment := by
  unfold component
  split_ifs with hhere hup
  · rcases hhere with rfl | rfl
    · decide
    · decide
  · rw [hup]
    decide
  · rw [not_or] at hhere
    simp [Component.isName, isName, hhere, hup]

theorem countP_components (start : List Bytes) :
    (start.map component).countP Component.isUp = start.count (ascii "..") ∧
      (start.map component).countP Component.isName = start.countP isName := by
  have hup : Component.isUp ∘ component = fun segment => segment == ascii ".." := funext component_isUp
  have hname : Component.isName ∘ component = isName := funext component_isName
  rw [List.countP_map, List.countP_map, hup, hname]
  exact ⟨rfl, rfl⟩

theorem balanced_components (path : Bytes) : Balanced (components path) ↔ NeverAbove path := by
  constructor
  · intro h start hstart
    have hle := h (start.map component) (hstart.map component)
    rwa [(countP_components start).1, (countP_components start).2] at hle
  · intro h start hstart
    obtain ⟨begun, hbegun, rfl⟩ := List.prefix_map_iff.1 hstart
    rw [(countP_components begun).1, (countP_components begun).2]
    exact h begun hbegun

/-! ## The file of a request -/

/-- the file of a request is the root of the location, followed by what is left of the decoded URI -/
theorem static_fileName {config : NginxConfig} {d : Dispatcher} (hd : Dispatcher.Reachable config d)
    {uri location root : Bytes} (hroot : config.staticLocations.lookup location = some root) {handler : StaticHandler}
    (hhandler : (d.getHandler uri).1 = some (.static handler)) (hlocation : handler.clientLocationPath = location) :
    handler.fileName uri = root ++ remainder location (decodeSpaces uri) := by
  have hown := Dispatcher.getHandler_static hd hhandler
  rw [hlocation, hroot] at hown
  rw [StaticHandler.fileName, StaticHandler.subUriPath_eq, hlocation, Option.some.inj hown]

/-- **When a static location keeps to its root.** Whatever was asked of the dispatcher before: if a URI is given to the
static handler of a location, the file it opens stays inside the root of the location exactly when the rest of the
decoded URI under the location never has more `..` than names before it. -/
theorem static_confined_iff {config : NginxConfig} {d : Dispatcher} (hd : Dispatcher.Reachable config d)
    {uri location root : Bytes} (hroot : config.staticLocations.lookup location = some root) {handler : StaticHandler}
    (hhandler : (d.getHandler uri).1 = some (.static handler)) (hlocation : handler.clientLocationPath = location) :
    Inside root (handler.fileName uri) ↔ NeverAbove (remainder location (decodeSpaces uri)) := by
  rw [← balanced_components, ← confined_iff_balanced, static_fileName hd hroot hhandler hlocation]
  constructor
  · rintro ⟨appended, heq, hconfined⟩
    rwa [List.append_cancel_left heq]
  · intro hconfined
    exact ⟨_, rfl, hconfined⟩

/-! ## Beside the root -/

/-- one static location -/
def filesConfig : NginxConfig :=
  { NginxConfig.fresh with
    staticLocations := AList.insert (ascii "/static") (ascii "./files") ∅
    handlerTypes := [ascii "StaticHandler"] }

/-- its handler -/
def filesHandler : StaticHandler := ⟨ascii "/static", ascii "./files"⟩

/-- its dispatcher -/
def filesDispatcher : Dispatcher :=
  ⟨filesConfig, AList.insert (ascii "/static") (some (.static filesHandler)) ∅, false⟩

theorem filesDispatcher_init : Dispatcher.init filesConfig = some filesDispatcher := rfl

/-- every URI under the location is given to the handler -/
theorem filesDispatcher_getHandler {uri : Bytes} (h : Under (ascii "/static") (unescapeSpaces uri)) :
    (filesDispatcher.getHandler uri).1 = some (.static filesHandler) := by
  have hone : ∀ location ∈ filesConfig.staticLocations, location = ascii "/static" := by
    intro location hl
    exact List.mem_singleton.1 hl
  have hmatch : longestPrefixMatch filesConfig.staticLocations (unescapeSpaces uri) = ascii "/static" := by
    rcases longestPrefixMatch_spec filesConfig.staticLocations (unescapeSpaces uri) with ⟨hmem, -⟩ | ⟨-, hnone⟩
    · exact hone _ hmem
    · exact absurd h (hnone _ (List.mem_singleton.2 rfl))
  have hecho : unescapeSpaces uri ∉ filesConfig.echoLocations := List.not_mem_nil
  unfold Dispatcher.getHandler
  rw [decodeSpaces_eq]
  simp only [filesDispatcher, hmatch]
  rw [if_neg hecho, if_pos (by decide)]
  rfl

/-- a page below the root, by way of another directory -/
theorem static_confined_iff_page :
    Inside (ascii "./files") (filesHandler.fileName (ascii "/static/a/../b%20c.html")) := by
  have hroot : filesConfig.staticLocations.lookup (ascii "/static") = some (ascii "./files") := rfl
  refine (static_confined_iff (.init filesDispatcher_init) hroot (filesDispatcher_getHandler (by decide)) rfl).2 ?_
  rw [decodeSpaces_eq, ← balanced_components, ← confined_iff_balanced]
  decide +kernel

/-- the configuration of the server is asked for, beside the root -/
theorem static_escape :
    ∃ d handler, Dispatcher.init filesConfig = some d ∧
      (d.getHandler (ascii "/static/../config")).1 = some (.static handler) ∧
      filesConfig.staticLocations.lookup handler.clientLocationPath = some (ascii "./files") ∧
      ¬ Inside (ascii "./files") (handler.fileName (ascii "/static/../config")) := by
  refine ⟨filesDispatcher, filesHandler, filesDispatcher_init, filesDispatcher_getHandler (by decide), rfl, ?_⟩
  rintro ⟨appended, heq, hconfined⟩
  have hfile : filesHandler.fileName (ascii "/static/../config") = ascii "./files" ++ ascii "/../config" := by
    rw [StaticHandler.fileName, StaticHandler.subUriPath_eq, decodeSpaces_eq]
    decide
  rw [hfile] at heq
  rw [← List.append_cancel_left heq] at hconfined
  exact absurd hconfined (by decide +kernel)

end BlogServer.Dispatch
