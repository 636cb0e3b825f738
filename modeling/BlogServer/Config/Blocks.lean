/-
What a configuration declares: location blocks, each with a handler and what the handler's block says, and a port.

Strings that stand between quotes carry the proof that there is no quote in them, port numbers that they are in range,
and a blog block that it says each of its four fields once, in some order. `Block.lexemes` is how a block is written,
`NginxConfig.declare` what the tables of the config hold after it.

- `Declares.declare`: tables that hold exactly the declared entries do so after one more block, of another location.
-/
import BlogServer.Config.Lexemes

namespace BlogServer.Config

open BlogServer.Byte BlogServer.Decimal

/-! ## Blocks -/

/-- a string that can stand between double quotes -/
abbrev Quotable := { s : Bytes // DQUOTE ∉ s }

/-- a port number, from 0 to 65535 -/
abbrev Port := Fin 65536

/-- the fields of a `BlogHandler` block -/
inductive BlogField where
  | host
  | port
  | username
  | password
deriving DecidableEq, Repr

def BlogField.keyword : BlogField → Bytes
  | .host => ascii "host"
  | .port => ascii "port"
  | .username => ascii "username"
  | .password => ascii "password"

/-- the block of a `BlogHandler`: its fields in any order -/
structure BlogInfo where
  order : List BlogField
  complete : order.Perm [.host, .port, .username, .password]
  value : BlogField → Quotable

/-- a handler with its block -/
inductive Servlet where
  | echo
  | status
  | health
  | uploadForm
  | static (root : Quotable)
  | redirect (host : Quotable)
  | proxy (host : Quotable) (port : Port)
  | blog (info : BlogInfo)

structure Block where
  location : Quotable
  servlet : Servlet

/-! ## How a block is written -/

def Servlet.handler : Servlet → Bytes
  | .echo => ascii "EchoHandler"
  | .status => ascii "StatusHandler"
  | .health => ascii "HealthHandler"
  | .uploadForm => ascii "UploadFormHandler"
  | .static _ => ascii "StaticHandler"
  | .redirect _ => ascii "RedirectHandler"
  | .proxy _ _ => ascii "ProxyHandler"
  | .blog _ => ascii "BlogHandler"

/-- `keyword "value";` -/
def setting (keyword : Bytes) (value : Quotable) : List Lexeme := [.word keyword, .quoted value.1, .semicolon]

/-- `port N;` -/
def portStatement (port : Port) : List Lexeme := [.word (ascii "port"), .word (decimal port.1), .semicolon]

def Servlet.statements : Servlet → List Lexeme
  | .static root => setting (ascii "root") root
  | .redirect host => setting (ascii "host") host
  | .proxy host port => setting (ascii "host") host ++ portStatement port
  | .blog info => info.order.flatMap fun f => setting f.keyword (info.value f)
  | _ => []

/-- `location "…" Handler { … }` -/
def Block.lexemes (b : Block) : List Lexeme :=
  [.word (ascii "location"), .quoted b.location.1, .word b.servlet.handler, .openBrace] ++ b.servlet.statements ++
    [.closeBrace]

/-! ## What a block declares -/

def Servlet.root? : Servlet → Option Bytes
  | .static root => some root.1
  | _ => none

def Servlet.redirectHost? : Servlet → Option Bytes
  | .redirect host => some host.1
  | _ => none

def Servlet.proxyServer? : Servlet → Option (Bytes × ℤ)
  | .proxy host port => some (host.1, (port.1 : ℤ))
  | _ => none

def Servlet.blogField? (f : BlogField) : Servlet → Option Bytes
  | .blog info => some (info.value f).1
  | _ => none

/-- an entry of a table, if there is one -/
def enter {V : Type} (table : HashMap V) (location : Bytes) : Option V → HashMap V
  | some v => table.insert location v
  | none => table

/-- a location of a set, if it is one -/
def enterIf (set : List Bytes) (location : Bytes) (declared : Bool) : List Bytes :=
  if declared then set.insert location else set

def Servlet.isEcho : Servlet → Bool
  | .echo => true
  | _ => false

def Servlet.isStatus : Servlet → Bool
  | .status => true
  | _ => false

def Servlet.isHealth : Servlet → Bool
  | .health => true
  | _ => false

def Servlet.isUploadForm : Servlet → Bool
  | .uploadForm => true
  | _ => false

/-- the config after a block -/
def NginxConfig.declare (config : NginxConfig) (b : Block) : NginxConfig :=
  { config with
    staticLocations := enter config.staticLocations b.location.1 b.servlet.root?
    echoLocations := enterIf config.echoLocations b.location.1 b.servlet.isEcho
    statusLocations := enterIf config.statusLocations b.location.1 b.servlet.isStatus
    proxyLocations := enter config.proxyLocations b.location.1 b.servlet.proxyServer?
    redirectLocations := enter config.redirectLocations b.location.1 b.servlet.redirectHost?
    healthLocations := enterIf config.healthLocations b.location.1 b.servlet.isHealth
    uploadFormLocations := enterIf config.uploadFormLocations b.location.1 b.servlet.isUploadForm
    blogIps := enter config.blogIps b.location.1 (b.servlet.blogField? .host)
    blogPorts := enter config.blogPorts b.location.1 (b.servlet.blogField? .port)
    blogUsernames := enter config.blogUsernames b.location.1 (b.servlet.blogField? .username)
    blogPasswords := enter config.blogPasswords b.location.1 (b.servlet.blogField? .password) }

/-! ## Tables that hold what is declared -/

/-- the table holds exactly the entries that the blocks declare -/
def Holds {V : Type} (table : HashMap V) (entry : Servlet → Option V) (blocks : List Block) : Prop :=
  ∀ location v, table.lookup location = some v ↔ ∃ b ∈ blocks, b.location.1 = location ∧ entry b.servlet = some v

/-- the set holds exactly the locations of the blocks of a kind -/
def HoldsSet (set : List Bytes) (kind : Servlet → Bool) (blocks : List Block) : Prop :=
  ∀ location, location ∈ set ↔ ∃ b ∈ blocks, b.location.1 = location ∧ kind b.servlet = true

/-- every table of the config holds exactly what the blocks declare -/
structure Declares (config : NginxConfig) (blocks : List Block) : Prop where
  static : Holds config.staticLocations Servlet.root? blocks
  echo : HoldsSet config.echoLocations Servlet.isEcho blocks
  status : HoldsSet config.statusLocations Servlet.isStatus blocks
  proxy : Holds config.proxyLocations Servlet.proxyServer? blocks
  redirect : Holds config.redirectLocations Servlet.redirectHost? blocks
  health : HoldsSet config.healthLocations Servlet.isHealth blocks
  uploadForm : HoldsSet config.uploadFormLocations Servlet.isUploadForm blocks
  blogIp : Holds config.blogIps (Servlet.blogField? .host) blocks
  blogPort : Holds config.blogPorts (Servlet.blogField? .port) blocks
  blogUsername : Holds config.blogUsernames (Servlet.blogField? .username) blocks
  blogPassword : Holds config.blogPasswords (Servlet.blogField? .password) blocks

theorem holds_empty {V : Type} (entry : Servlet → Option V) : Holds ∅ entry [] := by
  intro location v
  simp

theorem holdsSet_empty (kind : Servlet → Bool) : HoldsSet [] kind [] := by
  intro location
  simp

theorem declares_fresh : Declares .fresh [] where
  static := holds_empty _
  echo := holdsSet_empty _
  status := holdsSet_empty _
  proxy := holds_empty _
  redirect := holds_empty _
  health := holdsSet_empty _
  uploadForm := holdsSet_empty _
  blogIp := holds_empty _
  blogPort := holds_empty _
  blogUsername := holds_empty _
  blogPassword := holds_empty _

theorem HoldsSet.enterIf {blocks : List Block} {b : Block} {set : List Bytes} {kind : Servlet → Bool}
    (h : HoldsSet set kind blocks) :
    HoldsSet (enterIf set b.location.1 (kind b.servlet)) kind (blocks ++ [b]) := by
  intro location
  simp only [List.mem_append, List.mem_singleton, or_and_right, exists_or, exists_eq_left, ← h location]
  unfold Config.enterIf
  cases kind b.servlet with
  | false => simp
  | true => simp [List.mem_insert_iff, or_comm, eq_comm]

section Declare

variable {blocks : List Block} {b : Block} (hnew : ∀ a ∈ blocks, a.location ≠ b.location)
include hnew

theorem Holds.enter {V : Type} {table : HashMap V} {entry : Servlet → Option V} (h : Holds table entry blocks) :
    Holds (enter table b.location.1 (entry b.servlet)) entry (blocks ++ [b]) := by
  intro location v
  simp only [List.mem_append, List.mem_singleton, or_and_right, exists_or, exists_eq_left, ← h location v]
  cases hentry : entry b.servlet with
  | none => simp [Config.enter]
  | some w =>
    unfold Config.enter
    by_cases hl : b.location.1 = location
    · -- the tables had no entry at the new location
      have hnone : table.lookup location ≠ some v := by
        intro hsome
        obtain ⟨a, ha, hloc, _⟩ := (h location v).1 hsome
        exact hnew a ha (Subtype.ext (hloc.trans hl.symm))
      subst hl
      simp [AList.lookup_insert, hnone]
    · have hne : location ≠ b.location.1 := fun he => hl he.symm
      simp [AList.lookup_insert_ne hne, hl]

/-- **One more block**, of a location that no block before it has. -/
theorem Declares.declare {config : NginxConfig} (h : Declares config blocks) :
    Declares (config.declare b) (blocks ++ [b]) where
  static := h.static.enter hnew
  echo := h.echo.enterIf
  status := h.status.enterIf
  proxy := h.proxy.enter hnew
  redirect := h.redirect.enter hnew
  health := h.health.enterIf
  uploadForm := h.uploadForm.enterIf
  blogIp := h.blogIp.enter hnew
  blogPort := h.blogPort.enter hnew
  blogUsername := h.blogUsername.enter hnew
  blogPassword := h.blogPassword.enter hnew

end Declare

end BlogServer.Config
