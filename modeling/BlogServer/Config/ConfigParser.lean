/-
`NginxConfigParser` (`src/NginxConfigParser.cc`): the tokenizer and the loop that fills the config.

`parseToken` is the tokenizer on the bytes that are left. One turn of the loop of `Parse` is `step`, in the order of the
source: first what flags set earlier make of the token, then the flags it sets, then the check of the transition between
token types. `handler_types_` and the stack of open blocks stand beside the config while the parse runs (`Registry`,
`stack`) and are put into it at the end. A `substr`, `stoi` or missing `return` that ends the parse otherwise is a
`Fault`; `fuel` bounds the number of tokens.

- `handlerType_frame`, `transition_frame`: what the stages of a turn can change.
- `step_registry`: a turn of the loop records one token as a handler type, or none.
-/
import BlogServer.Config.NginxConfig

namespace BlogServer.Config

open BlogServer.Byte BlogServer.Decimal

/-! ## Tokens -/

/-- `NginxConfigParser::TokenType` -/
inductive TokenType where
  | start
  | normal
  | startBlock
  | endBlock
  | comment
  | statementEnd
  | eof
  | error
deriving DecidableEq, Repr

/-- `NginxConfigParser::TokenParserState` -/
inductive TokenParserState where
  | initialWhitespace
  | singleQuote
  | doubleQuote
  | comment
  | normal
deriving DecidableEq, Repr

/-- `ParseToken`: the type of the next token, its value, and the input after it -/
def parseToken (state : TokenParserState) (value : Bytes) : Bytes → TokenType × Bytes × Bytes
  | [] => (if state = .singleQuote ∨ state = .doubleQuote then .error else .eof, value, [])
  | c :: input =>
    match state with
    | .initialWhitespace =>
      if c = LBRACE then (.startBlock, [c], input)
      else if c = RBRACE then (.endBlock, [c], input)
      else if c = HASH then parseToken .comment [c] input
      else if c = DQUOTE then parseToken .doubleQuote [c] input
      else if c = SQUOTE then parseToken .singleQuote [c] input
      else if c = SEMI then (.statementEnd, [c], input)
      else if c = SP ∨ c = HT ∨ c = LF ∨ c = CR then parseToken .initialWhitespace value input
      else parseToken .normal (value ++ [c]) input
    | .singleQuote =>
      if c = SQUOTE then (.normal, value ++ [c], input) else parseToken .singleQuote (value ++ [c]) input
    | .doubleQuote =>
      if c = DQUOTE then (.normal, value ++ [c], input) else parseToken .doubleQuote (value ++ [c]) input
    | .comment =>
      if c = LF ∨ c = CR then (.comment, value, input) else parseToken .comment (value ++ [c]) input
    | .normal =>
      -- `unget` leaves the delimiter in the input
      if c = SP ∨ c = HT ∨ c = LF ∨ c = SEMI ∨ c = LBRACE ∨ c = RBRACE then (.normal, value, c :: input)
      else parseToken .normal (value ++ [c]) input

/-! ## The state of `Parse` -/

/-- how a parse ends other than by returning -/
inductive Fault where
  /-- `substr` throws `std::out_of_range` -/
  | outOfRange
  /-- `std::stoi` throws -/
  | badNumber
  /-- the `catch` of `IsValidPortNum` reaches the end of the function -/
  | missingReturn
  | outOfFuel
deriving DecidableEq, Repr

/-- the boolean variables of `Parse` -/
structure Flags where
  savePortVal : Bool := false
  seenLocation : Bool := false
  saveRootVal : Bool := false
  expectHandlerType : Bool := false
  expectStaticRoot : Bool := false
  expectProxyHost : Bool := false
  saveProxyHostVal : Bool := false
  expectProxyPort : Bool := false
  saveProxyPortVal : Bool := false
  expectRedirectHost : Bool := false
  saveRedirectHostVal : Bool := false
  expectBlogInfo : Bool := false
  saveBlogIpVal : Bool := false
  saveBlogPort : Bool := false
  saveBlogUsername : Bool := false
  saveBlogPassword : Bool := false
deriving DecidableEq

/-- `seen_handlers` and `handler_types_` -/
structure Registry where
  seenHandlers : List Bytes
  handlerTypes : List Bytes

/-- the token is recorded as a handler type when it is first seen -/
def Registry.note (r : Registry) (token : Bytes) : Registry :=
  if token ∈ r.seenHandlers then r else ⟨token :: r.seenHandlers, r.handlerTypes ++ [token]⟩

/-- the variables of `Parse` that outlive a turn of its loop -/
structure ParseState where
  flags : Flags
  location : Bytes
  storeProxyLocationToken : Bytes
  registry : Registry
  lastTokenType : TokenType
  /-- the size of `bracket_stack` -/
  brackets : ℕ
  /-- the statements of the open blocks, `config_stack.top()` first -/
  stack : List (List Statement)
  config : NginxConfig

/-- a block that ends becomes the child of the last statement of the block around it -/
def closeBlock : List (List Statement) → List (List Statement)
  | child :: parent :: rest =>
    (parent.modifyLast fun | .mk tokens _ => .mk tokens (some child)) :: rest
  | stack => stack

/-- a token goes into the last statement, which is new unless the token before was one of its -/
def addToken (lastTokenType : TokenType) (token : Bytes) : List (List Statement) → List (List Statement)
  | top :: rest =>
    ((if lastTokenType = .normal then top else top ++ [.mk [] none]).modifyLast fun
      | .mk tokens child => .mk (tokens ++ [token]) child) :: rest
  | [] => []

/-- the statements of the config, open blocks included -/
def statementsOf : List (List Statement) → List Statement
  | [] => []
  | [top] => top
  | child :: parent :: rest =>
    statementsOf ((parent.modifyLast fun | .mk tokens _ => .mk tokens (some child)) :: rest)
termination_by stack => stack.length

/-- the config as `Parse` leaves it -/
def ParseState.result (st : ParseState) : NginxConfig :=
  { st.config with statements := statementsOf st.stack, handlerTypes := st.registry.handlerTypes }

/-! ## One turn of the loop -/

/-- `port_token.substr(port_token.find(":") + 1)` where there is a colon -/
def afterColon (token : Bytes) : Bytes :=
  match Bytes.find [COLON] token with
  | some pos => token.drop (pos + 1)
  | none => token

/-- `SetConfigPortNumberFromToken` -/
def setConfigPortNumberFromToken (token : Bytes) (config : NginxConfig) : NginxConfig :=
  match stoi (afterColon token) with
  | none => config
  | some n => if 0 ≤ n ∧ n ≤ 65535 then { config with portNumber := n } else config

/-- `IsValidPortNum`; `none` is the `catch` -/
def isValidPortNum (token : Bytes) : Option Bool :=
  (stoi (afterColon token)).map fun n => decide (0 ≤ n ∧ n ≤ 65535)

/-- `token.substr(1, token.size() - 2)` -/
def unquote (token : Bytes) : Except Fault Bytes :=
  if token = [] then .error .outOfRange else .ok ((token.drop 1).take (token.length - 2))

def savePort (st : ParseState) (token : Bytes) : ParseState :=
  if st.flags.savePortVal then
    { st with
      config := setConfigPortNumberFromToken token st.config
      flags := { st.flags with savePortVal := false } }
  else st

def saveProxyPort (st : ParseState) (token : Bytes) : Except Fault ParseState :=
  if st.flags.saveProxyPortVal then
    match isValidPortNum token with
    | none => .error .missingReturn
    -- the message calls `std::stoi` on the keyword "port"
    | some false => .error .badNumber
    | some true =>
      match stoi token with
      | none => .error .badNumber
      | some n =>
        .ok { st with
          config := { st.config with
            proxyLocations := st.config.proxyLocations.insert st.location (st.storeProxyLocationToken, n) }
          flags := { st.flags with saveProxyPortVal := false }
          location := [] }
  else .ok st

/-- the token goes on without its quotes -/
def saveRoot (st : ParseState) (token : Bytes) : Except Fault (ParseState × Bytes) :=
  if st.flags.saveRootVal then
    match unquote token with
    | .error e => .error e
    | .ok token =>
      .ok ({ st with
        config := { st.config with staticLocations := st.config.staticLocations.insert st.location token }
        flags := { st.flags with
          expectHandlerType := false, saveRootVal := false, expectStaticRoot := false, seenLocation := false }
        location := [] }, token)
  else .ok (st, token)

/-- a token that the flag asks for is saved without its quotes -/
def saveUnquoted (flag : Bool) (save : Bytes → ParseState) (st : ParseState) (token : Bytes) : Except Fault ParseState :=
  if flag then
    match unquote token with
    | .error e => .error e
    | .ok value => .ok (save value)
  else .ok st

theorem saveUnquoted_off {flag : Bool} (h : flag = false) (save : Bytes → ParseState) (st : ParseState) (token : Bytes) :
    saveUnquoted flag save st token = .ok st := by
  rw [h]; rfl

def saveProxyHost (st : ParseState) (token : Bytes) : Except Fault ParseState :=
  saveUnquoted st.flags.saveProxyHostVal (fun host =>
    { st with
      storeProxyLocationToken := host
      flags := { st.flags with
        expectProxyPort := true, expectHandlerType := false, expectProxyHost := false, saveProxyHostVal := false,
        seenLocation := false } }) st token

def saveRedirectHost (st : ParseState) (token : Bytes) : Except Fault ParseState :=
  saveUnquoted st.flags.saveRedirectHostVal (fun host =>
    { st with
      config := { st.config with redirectLocations := st.config.redirectLocations.insert st.location host }
      flags := { st.flags with
        expectRedirectHost := false, expectHandlerType := false, expectProxyPort := false, saveRedirectHostVal := false,
        seenLocation := false } }) st token

def saveBlogIp (st : ParseState) (token : Bytes) : Except Fault ParseState :=
  saveUnquoted st.flags.saveBlogIpVal (fun value =>
    { st with
      config := { st.config with blogIps := st.config.blogIps.insert st.location value }
      flags := { st.flags with saveBlogIpVal := false } }) st token

def saveBlogPort (st : ParseState) (token : Bytes) : Except Fault ParseState :=
  saveUnquoted st.flags.saveBlogPort (fun value =>
    { st with
      config := { st.config with blogPorts := st.config.blogPorts.insert st.location value }
      flags := { st.flags with saveBlogPort := false } }) st token

def saveBlogUsername (st : ParseState) (token : Bytes) : Except Fault ParseState :=
  saveUnquoted st.flags.saveBlogUsername (fun value =>
    { st with
      config := { st.config with blogUsernames := st.config.blogUsernames.insert st.location value }
      flags := { st.flags with saveBlogUsername := false } }) st token

def saveBlogPassword (st : ParseState) (token : Bytes) : Except Fault ParseState :=
  saveUnquoted st.flags.saveBlogPassword (fun value =>
    { st with
      config := { st.config with blogPasswords := st.config.blogPasswords.insert st.location value }
      flags := { st.flags with saveBlogPassword := false } }) st token

/-- a location of a handler without a block of its own: it is entered at the handler's name -/
def enterLocation (st : ParseState) (config : NginxConfig) : ParseState :=
  { st with
    config := config
    location := []
    flags := { st.flags with seenLocation := false, expectHandlerType := false } }

/-- `if (expect_handler_type)` -/
def handlerType (st : ParseState) (token : Bytes) : ParseState :=
  if st.flags.expectHandlerType then
    let st := { st with registry := st.registry.note token }
    if token = ascii "StaticHandler" then { st with flags := { st.flags with expectStaticRoot := true } }
    else if token = ascii "RedirectHandler" then { st with flags := { st.flags with expectRedirectHost := true } }
    else if token = ascii "ProxyHandler" then { st with flags := { st.flags with expectProxyHost := true } }
    else if token = ascii "BlogHandler" then { st with flags := { st.flags with expectBlogInfo := true } }
    else if token = ascii "EchoHandler" then
      enterLocation st { st.config with echoLocations := st.config.echoLocations.insert st.location }
    else if token = ascii "StatusHandler" then
      enterLocation st { st.config with statusLocations := st.config.statusLocations.insert st.location }
    else if token = ascii "HealthHandler" then
      enterLocation st { st.config with healthLocations := st.config.healthLocations.insert st.location }
    else if token = ascii "UploadFormHandler" then
      enterLocation st { st.config with uploadFormLocations := st.config.uploadFormLocations.insert st.location }
    else st
  else st

/-- `if (seen_location)` -/
def newLocation (st : ParseState) (token : Bytes) : Except Fault ParseState :=
  saveUnquoted st.flags.seenLocation (fun location =>
    { st with
      location := location
      flags := { st.flags with expectHandlerType := true, seenLocation := false } }) st token

/-- the chain of comparisons with the keywords -/
def keyword (f : Flags) (token : Bytes) : Flags :=
  if token = ascii "port" ∧ f.expectProxyPort = false ∧ f.expectBlogInfo = false then { f with savePortVal := true }
  else if token = ascii "location" then { f with seenLocation := true }
  else if f.expectStaticRoot = true ∧ token = ascii "root" then { f with saveRootVal := true }
  else if f.expectProxyHost = true ∧ token = ascii "host" then { f with saveProxyHostVal := true }
  else if f.expectProxyPort = true ∧ token = ascii "port" then { f with saveProxyPortVal := true }
  else if f.expectRedirectHost = true ∧ token = ascii "host" then { f with saveRedirectHostVal := true }
  else if f.expectBlogInfo = true ∧ token = ascii "host" then { f with saveBlogIpVal := true }
  else if f.expectBlogInfo = true ∧ token = ascii "port" then { f with saveBlogPort := true }
  else if f.expectBlogInfo = true ∧ token = ascii "password" then { f with saveBlogPassword := true }
  else if f.expectBlogInfo = true ∧ token = ascii "username" then { f with saveBlogUsername := true }
  else f

/-- what a turn of the loop comes to -/
inductive Progress where
  | goOn (st : ParseState)
  | stop (accepted : Bool) (config : NginxConfig)

/-- the check of the transition from the last token type, and its effect on blocks and statements -/
def transition (st : ParseState) (tokenType : TokenType) (token : Bytes) : Progress :=
  match tokenType with
  | .comment => .goOn st
  | .normal =>
    if st.lastTokenType = .start ∨ st.lastTokenType = .statementEnd ∨ st.lastTokenType = .startBlock ∨
        st.lastTokenType = .endBlock ∨ st.lastTokenType = .normal then
      .goOn { st with stack := addToken st.lastTokenType token st.stack, lastTokenType := .normal }
    else .stop false st.result
  | .statementEnd =>
    if st.lastTokenType = .normal then .goOn { st with lastTokenType := .statementEnd } else .stop false st.result
  | .startBlock =>
    if st.lastTokenType = .normal then
      .goOn { st with stack := [] :: st.stack, brackets := st.brackets + 1, lastTokenType := .startBlock }
    else .stop false st.result
  | .endBlock =>
    if (st.lastTokenType = .statementEnd ∨ st.lastTokenType = .endBlock ∨ st.lastTokenType = .startBlock) ∧
        st.brackets ≠ 0 then
      .goOn { st with
        flags := {}, brackets := st.brackets - 1, stack := closeBlock st.stack, lastTokenType := .endBlock }
    else .stop false st.result
  | .eof =>
    if st.lastTokenType = .statementEnd ∨ st.lastTokenType = .endBlock ∨ st.lastTokenType = .start then
      .stop (st.brackets == 0) st.result
    else .stop false st.result
  | .start | .error => .stop false st.result

/-- one turn of the loop -/
def step (st : ParseState) (tokenType : TokenType) (token : Bytes) : Except Fault Progress := do
  let st := savePort st token
  let st ← saveProxyPort st token
  let (st, token) ← saveRoot st token
  let st ← saveProxyHost st token
  let st ← saveRedirectHost st token
  let st ← saveBlogIp st token
  let st ← saveBlogPort st token
  let st ← saveBlogUsername st token
  let st ← saveBlogPassword st token
  let st := handlerType st token
  let st ← newLocation st token
  let st := { st with flags := keyword st.flags token }
  pure (transition st tokenType token)

/-- a turn, stage by stage -/
theorem step_stages {st st₁ st₂ st₃ st₄ st₅ st₆ st₇ st₈ st₉ : ParseState} {token token' : Bytes}
    (h₁ : saveProxyPort (savePort st token) token = .ok st₁) (h₂ : saveRoot st₁ token = .ok (st₂, token'))
    (h₃ : saveProxyHost st₂ token' = .ok st₃) (h₄ : saveRedirectHost st₃ token' = .ok st₄)
    (h₅ : saveBlogIp st₄ token' = .ok st₅) (h₆ : saveBlogPort st₅ token' = .ok st₆)
    (h₇ : saveBlogUsername st₆ token' = .ok st₇) (h₈ : saveBlogPassword st₇ token' = .ok st₈)
    (h₉ : newLocation (handlerType st₈ token') token' = .ok st₉) (tokenType : TokenType) :
    step st tokenType token = .ok (transition { st₉ with flags := keyword st₉.flags token' } tokenType token') := by
  simp only [step, h₁, h₂, h₃, h₄, h₅, h₆, h₇, h₈, h₉, bind, Except.bind, pure, Except.pure]

theorem exists_of_bind_ok {ε α β : Type} {x : Except ε α} {f : α → Except ε β} {b : β} (h : (x >>= f) = .ok b) :
    ∃ a, x = .ok a ∧ f a = .ok b := by
  cases x with
  | error e => cases h
  | ok a => exact ⟨a, rfl, h⟩

/-- what the stages of a turn make of a state and a token, up to the transition -/
inductive Stages (st : ParseState) (token : Bytes) : ParseState → Bytes → Prop where
  | intro {st₁ st₂ st₃ st₄ st₅ st₆ st₇ st₈ st₉ : ParseState} {token' : Bytes}
      (h₁ : saveProxyPort (savePort st token) token = .ok st₁) (h₂ : saveRoot st₁ token = .ok (st₂, token'))
      (h₃ : saveProxyHost st₂ token' = .ok st₃) (h₄ : saveRedirectHost st₃ token' = .ok st₄)
      (h₅ : saveBlogIp st₄ token' = .ok st₅) (h₆ : saveBlogPort st₅ token' = .ok st₆)
      (h₇ : saveBlogUsername st₆ token' = .ok st₇) (h₈ : saveBlogPassword st₇ token' = .ok st₈)
      (h₉ : newLocation (handlerType st₈ token') token' = .ok st₉) :
      Stages st token { st₉ with flags := keyword st₉.flags token' } token'

/-- the first half of a turn: the values that flags ask for, and the flags that the token raises -/
def values (st : ParseState) (token : Bytes) : Except Fault (ParseState × Bytes) := do
  let st := savePort st token
  let st ← saveProxyPort st token
  let (st, token) ← saveRoot st token
  let st ← saveProxyHost st token
  let st ← saveRedirectHost st token
  let st ← saveBlogIp st token
  let st ← saveBlogPort st token
  let st ← saveBlogUsername st token
  let st ← saveBlogPassword st token
  let st := handlerType st token
  let st ← newLocation st token
  pure ({ st with flags := keyword st.flags token }, token)

theorem bind_map {ε α β γ : Type} (x : Except ε α) (f : α → Except ε β) (g : β → γ) :
    (x >>= f).map g = x >>= fun a => (f a).map g := by
  cases x <;> rfl

theorem step_eq (st : ParseState) (tokenType : TokenType) (token : Bytes) :
    step st tokenType token = (values st token).map fun r => transition r.1 tokenType r.2 := by
  unfold step values
  simp only [bind_map]
  rfl

/-- a first half that does not throw goes through its stages -/
theorem stages_of_values {st : ParseState} {token : Bytes} {r : ParseState × Bytes} (h : values st token = .ok r) :
    Stages st token r.1 r.2 := by
  unfold values at h
  obtain ⟨st₁, h₁, h⟩ := exists_of_bind_ok h
  obtain ⟨⟨st₂, token'⟩, h₂, h⟩ := exists_of_bind_ok h
  obtain ⟨st₃, h₃, h⟩ := exists_of_bind_ok h
  obtain ⟨st₄, h₄, h⟩ := exists_of_bind_ok h
  obtain ⟨st₅, h₅, h⟩ := exists_of_bind_ok h
  obtain ⟨st₆, h₆, h⟩ := exists_of_bind_ok h
  obtain ⟨st₇, h₇, h⟩ := exists_of_bind_ok h
  obtain ⟨st₈, h₈, h⟩ := exists_of_bind_ok h
  obtain ⟨st₉, h₉, h⟩ := exists_of_bind_ok h
  rw [← Except.ok.inj h]
  exact .intro h₁ h₂ h₃ h₄ h₅ h₆ h₇ h₈ h₉

/-- and so does a turn -/
theorem stages_of_step {st : ParseState} {tokenType : TokenType} {token : Bytes} {p : Progress}
    (h : step st tokenType token = .ok p) :
    ∃ st' token', Stages st token st' token' ∧ p = transition st' tokenType token' := by
  rw [step_eq] at h
  cases hvalues : values st token with
  | error e =>
    rw [hvalues] at h
    cases h
  | ok r =>
    rw [hvalues] at h
    exact ⟨r.1, r.2, stages_of_values hvalues, (Except.ok.inj h).symm⟩

/-! ## What a turn changes -/

/-- the state with other flags, another location and other tables, and with these handler types -/
def Framed (st : ParseState) (registry : Registry) (st' : ParseState) : Prop :=
  ∃ flags location config,
    st' = { st with flags := flags, location := location, config := config, registry := registry } ∧
      config.portNumber = st.config.portNumber

theorem framed_ite {st a b : ParseState} {registry : Registry} {p : Prop} [Decidable p] (ha : Framed st registry a)
    (hb : Framed st registry b) : Framed st registry (if p then a else b) := by
  split
  · exact ha
  · exact hb

/-- a name is recorded where it is expected; beyond that it changes flags, the location and the tables -/
theorem handlerType_frame (st : ParseState) (token : Bytes) :
    Framed st (if st.flags.expectHandlerType then st.registry.note token else st.registry) (handlerType st token) := by
  unfold handlerType
  by_cases hexpect : st.flags.expectHandlerType = true
  · rw [if_pos hexpect, if_pos hexpect]
    -- one choice for each of the eight names
    iterate 8 refine framed_ite ⟨_, _, _, rfl, rfl⟩ ?_
    exact ⟨_, _, _, rfl, rfl⟩
  · rw [if_neg hexpect, if_neg hexpect]
    exact ⟨_, _, _, rfl, rfl⟩

/-- a transition stops with the config, or changes only blocks and statements, and the flags at the end of a block -/
theorem transition_frame (st : ParseState) (tokenType : TokenType) (token : Bytes) :
    (∃ accepted, transition st tokenType token = .stop accepted st.result) ∨
      ∃ lastTokenType brackets stack,
        transition st tokenType token = .goOn { st with
          flags := if tokenType = .endBlock then {} else st.flags
          lastTokenType := lastTokenType, brackets := brackets, stack := stack } := by
  cases tokenType with
  | start => exact Or.inl ⟨_, rfl⟩
  | error => exact Or.inl ⟨_, rfl⟩
  | comment => exact Or.inr ⟨_, _, _, rfl⟩
  | eof =>
    left
    unfold transition
    simp only
    split
    · exact ⟨_, rfl⟩
    · exact ⟨_, rfl⟩
  | _ =>
    unfold transition
    simp only
    split
    · exact Or.inr ⟨_, _, _, rfl⟩
    · exact Or.inl ⟨_, rfl⟩

/-- the config that a turn stops with -/
theorem transition_stop_result {st : ParseState} {tokenType : TokenType} {token : Bytes} {accepted : Bool}
    {config : NginxConfig} (h : transition st tokenType token = .stop accepted config) : config = st.result := by
  rcases transition_frame st tokenType token with ⟨accepted', hstop⟩ | ⟨last, brackets, stack, hgoes⟩
  · rw [hstop] at h
    exact (Progress.stop.inj h).2.symm
  · rw [hgoes] at h
    cases h

/-- the state that a turn goes on with -/
theorem transition_goOn {st st' : ParseState} {tokenType : TokenType} {token : Bytes}
    (h : transition st tokenType token = .goOn st') :
    st'.flags = (if tokenType = .endBlock then {} else st.flags) ∧ st'.registry = st.registry ∧
      st'.config = st.config := by
  rcases transition_frame st tokenType token with ⟨accepted, hstop⟩ | ⟨last, brackets, stack, hgoes⟩
  · rw [hstop] at h
    cases h
  · rw [hgoes] at h
    rw [← Progress.goOn.inj h]
    exact ⟨rfl, rfl, rfl⟩

/-! ## What a turn does to `handler_types_` -/

theorem saveUnquoted_inv {flag : Bool} {save : Bytes → ParseState} {st st' : ParseState} {token : Bytes}
    (h : saveUnquoted flag save st token = .ok st') : st' = st ∨ ∃ value, st' = save value := by
  unfold saveUnquoted at h
  split at h
  · split at h
    · cases h
    · exact Or.inr ⟨_, (Except.ok.inj h).symm⟩
  · exact Or.inl (Except.ok.inj h).symm

theorem saveUnquoted_registry {flag : Bool} {save : Bytes → ParseState} {st st' : ParseState} {token : Bytes}
    (h : saveUnquoted flag save st token = .ok st') (hsave : ∀ value, (save value).registry = st.registry) :
    st'.registry = st.registry := by
  rcases saveUnquoted_inv h with rfl | ⟨value, rfl⟩
  · rfl
  · exact hsave value

theorem savePort_registry (st : ParseState) (token : Bytes) : (savePort st token).registry = st.registry := by
  unfold savePort
  split <;> rfl

theorem saveProxyPort_registry {st st' : ParseState} {token : Bytes} (h : saveProxyPort st token = .ok st') :
    st'.registry = st.registry := by
  unfold saveProxyPort at h
  split at h
  · split at h
    · cases h
    · cases h
    · split at h
      · cases h
      · rw [← Except.ok.inj h]
  · rw [← Except.ok.inj h]

theorem saveRoot_registry {st : ParseState} {token : Bytes} {r : ParseState × Bytes} (h : saveRoot st token = .ok r) :
    r.1.registry = st.registry := by
  unfold saveRoot at h
  split at h
  · split at h
    · cases h
    · rw [← Except.ok.inj h]
  · rw [← Except.ok.inj h]

theorem handlerType_registry (st : ParseState) (token : Bytes) :
    (handlerType st token).registry =
      if st.flags.expectHandlerType then st.registry.note token else st.registry := by
  obtain ⟨flags, location, config, heq, -⟩ := handlerType_frame st token
  rw [heq]

theorem stages_registry {st st' : ParseState} {token token' : Bytes} (h : Stages st token st' token') :
    st'.registry = st.registry ∨ ∃ noted, st'.registry = st.registry.note noted := by
  obtain @⟨st₁, st₂, st₃, st₄, st₅, st₆, st₇, st₈, st₉, _, h₁, h₂, h₃, h₄, h₅, h₆, h₇, h₈, h₉⟩ := h
  -- every save leaves `handler_types_` as it is
  have hsaves : st₈.registry = st.registry := by
    rw [saveUnquoted_registry h₈ fun _ => rfl, saveUnquoted_registry h₇ fun _ => rfl,
      saveUnquoted_registry h₆ fun _ => rfl, saveUnquoted_registry h₅ fun _ => rfl,
      saveUnquoted_registry h₄ fun _ => rfl, saveUnquoted_registry h₃ fun _ => rfl, saveRoot_registry h₂,
      saveProxyPort_registry h₁, savePort_registry]
  have hnine : st₉.registry = (handlerType st₈ token').registry := saveUnquoted_registry h₉ fun _ => rfl
  show st₉.registry = _ ∨ ∃ noted, st₉.registry = _
  rw [hnine, ← hsaves]
  rw [handlerType_registry]
  split
  · exact Or.inr ⟨_, rfl⟩
  · exact Or.inl rfl

/-- **A turn records at most one token** as a handler type. -/
theorem step_registry {st st' : ParseState} {tokenType : TokenType} {token : Bytes}
    (h : step st tokenType token = .ok (.goOn st')) :
    st'.registry = st.registry ∨ ∃ noted, st'.registry = st.registry.note noted := by
  obtain ⟨st₁, token', hstages, hprogress⟩ := stages_of_step h
  rw [(transition_goOn hprogress.symm).2.1]
  exact stages_registry hstages

/-! ## The loop -/

def parseLoop : ℕ → ParseState → Bytes → Except Fault (Bool × NginxConfig)
  | 0, _, _ => .error .outOfFuel
  | fuel + 1, st, input =>
    let (tokenType, token, input) := parseToken .initialWhitespace [] input
    match step st tokenType token with
    | .error e => .error e
    | .ok (.stop accepted config) => .ok (accepted, config)
    | .ok (.goOn st) => parseLoop fuel st input

/-- the variables of `Parse` at its start -/
def ParseState.initial (config : NginxConfig) : ParseState where
  flags := {}
  location := []
  storeProxyLocationToken := []
  registry := ⟨[], config.handlerTypes⟩
  lastTokenType := .start
  brackets := 0
  stack := [config.statements]
  config := config

/-- `Parse` -/
def parse (config : NginxConfig) (input : Bytes) : Except Fault (Bool × NginxConfig) :=
  parseLoop (input.length + 1) (.initial config) input

end BlogServer.Config
