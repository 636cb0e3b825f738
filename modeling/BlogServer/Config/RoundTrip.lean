/-
A configuration that is written out is read back as it was declared.

Between statements the flags that ask for the next token are off (`Flags.Quiet`), and then a token only sets flags of
its own and may be recorded as a handler type (`step_quiet`). `Ready` is the state between two blocks, `InBlock` the
state in which a block may end. A block of any handler takes `Ready` to `Ready` and enters what it declares
(`run_block`): the one token that could derail it is the root of a `StaticHandler`, which goes on without its quotes and
may then be the keyword `port` or `location`; the flag it sets is spent on the `;` after it (`step_afterRoot`).

- `parse_roundTrip`: the tables hold exactly what is declared, and every handler type is recorded once.
-/
import BlogServer.Config.Blocks

namespace BlogServer.Config

open BlogServer.Byte BlogServer.Decimal

/-! ## Tokens -/

theorem unquote_quoted (s : Bytes) : unquote (Lexeme.quoted s).text = .ok s := by
  unfold unquote Lexeme.text
  rw [if_neg (by simp)]
  simp

theorem quoted_not_keyword (s : Bytes) : (Lexeme.quoted s).text ∉ keywords := cons_not_mem _ (by decide)

theorem quoted_not_handler (s : Bytes) : (Lexeme.quoted s).text ∉ handlerNames := cons_not_mem _ (by decide)

theorem decimal_not_mem (n : ℕ) {tokens : List Bytes} (h : ∀ token ∈ tokens, ∃ c ∈ token, isDigit c = false) :
    decimal n ∉ tokens := by
  intro hm
  obtain ⟨c, hc, hd⟩ := h _ hm
  rw [isDigit_decimal n c hc] at hd
  cases hd

theorem decimal_not_keyword (n : ℕ) : decimal n ∉ keywords := decimal_not_mem n (by decide)

theorem afterColon_decimal (n : ℕ) : afterColon (decimal n) = decimal n := by
  have hcolon : COLON ∉ decimal n := fun hm => absurd (isDigit_decimal n COLON hm) (by decide)
  rw [afterColon, Bytes.find_of_not_mem hcolon]

theorem stoi_port (port : Port) : stoi (decimal port.1) = some (port.1 : ℤ) := by
  rw [stoi_decimal, narrow_natCast (by omega)]

theorem port_inRange (port : Port) : 0 ≤ (port.1 : ℤ) ∧ (port.1 : ℤ) ≤ 65535 := by omega

/-! ## Turns of the loop -/

/-- no flag asks for the next token -/
structure Flags.Quiet (f : Flags) : Prop where
  savePortVal : f.savePortVal = false
  seenLocation : f.seenLocation = false
  saveRootVal : f.saveRootVal = false
  saveProxyHostVal : f.saveProxyHostVal = false
  saveProxyPortVal : f.saveProxyPortVal = false
  saveRedirectHostVal : f.saveRedirectHostVal = false
  saveBlogIpVal : f.saveBlogIpVal = false
  saveBlogPort : f.saveBlogPort = false
  saveBlogUsername : f.saveBlogUsername = false
  saveBlogPassword : f.saveBlogPassword = false

/-- **A token that no flag asks for** sets flags of its own and may be recorded. -/
theorem step_quiet {st : ParseState} (hq : st.flags.Quiet) (tokenType : TokenType) {token : Bytes}
    (hother : token ∉ handlerNames) :
    step st tokenType token =
      .ok (transition { st with
        registry := if st.flags.expectHandlerType then st.registry.note token else st.registry
        flags := keyword st.flags token } tokenType token) := by
  have hport : savePort st token = st := by
    unfold savePort
    rw [hq.savePortVal]
    rfl
  have hproxyPort : saveProxyPort (savePort st token) token = .ok st := by
    rw [hport]
    unfold saveProxyPort
    rw [hq.saveProxyPortVal]
    rfl
  have hroot : saveRoot st token = .ok (st, token) := by
    unfold saveRoot
    rw [hq.saveRootVal]
    rfl
  have hlocation : newLocation (handlerType st token) token = .ok (handlerType st token) := by
    rw [handlerType_other st hother]
    exact saveUnquoted_off hq.seenLocation _ _ _
  rw [step_stages hproxyPort hroot (saveUnquoted_off hq.saveProxyHostVal _ _ _)
    (saveUnquoted_off hq.saveRedirectHostVal _ _ _) (saveUnquoted_off hq.saveBlogIpVal _ _ _)
    (saveUnquoted_off hq.saveBlogPort _ _ _) (saveUnquoted_off hq.saveBlogUsername _ _ _)
    (saveUnquoted_off hq.saveBlogPassword _ _ _) hlocation, handlerType_other st hother]

/-- a token of no meaning of its own, such as `{`, `}` and `;` -/
theorem step_inert {st : ParseState} (hq : st.flags.Quiet) (tokenType : TokenType) {token : Bytes}
    (hkeyword : token ∉ keywords) (hhandler : token ∉ handlerNames) :
    step st tokenType token =
      .ok (transition { st with
        registry := if st.flags.expectHandlerType then st.registry.note token else st.registry } tokenType token) := by
  rw [step_quiet hq tokenType hhandler, keyword_other _ hkeyword]

/-! ## Between blocks -/

/-- the state between two blocks -/
structure Ready (st : ParseState) : Prop where
  flags : st.flags = {}
  last : st.lastTokenType = .start ∨ st.lastTokenType = .statementEnd ∨ st.lastTokenType = .endBlock
  brackets : st.brackets = 0

/-- the state of an open block that may be closed -/
structure InBlock (st : ParseState) : Prop where
  flags : st.flags.Quiet
  last : st.lastTokenType = .startBlock ∨ st.lastTokenType = .statementEnd
  brackets : st.brackets = 1

theorem quiet_none : Flags.Quiet {} := by constructor <;> rfl

/-- a keyword at the start of a statement -/
theorem step_keyword {st : ParseState} (hq : st.flags.Quiet)
    (hlast : st.lastTokenType = .start ∨ st.lastTokenType = .statementEnd ∨ st.lastTokenType = .startBlock ∨
      st.lastTokenType = .endBlock) {token : Bytes} (hother : token ∉ handlerNames) :
    ∃ stack registry, step st .normal token = .ok (.goOn
      ⟨keyword st.flags token, st.location, st.storeProxyLocationToken, registry, .normal, st.brackets, stack,
        st.config⟩) := by
  rw [step_quiet hq .normal hother]
  unfold transition
  simp only
  rw [if_pos (by tauto)]
  exact ⟨_, _, rfl⟩

/-- the `;` of a statement -/
theorem step_semicolon (st : ParseState) (hq : st.flags.Quiet) (hlast : st.lastTokenType = .normal) :
    ∃ registry, step st .statementEnd [SEMI] = .ok (.goOn
      ⟨st.flags, st.location, st.storeProxyLocationToken, registry, .statementEnd, st.brackets, st.stack,
        st.config⟩) := by
  rw [step_inert hq .statementEnd (by decide) (by decide)]
  unfold transition
  simp only
  rw [if_pos hlast]
  exact ⟨_, rfl⟩

/-- the `}` of a block -/
theorem step_close {st : ParseState} (h : InBlock st) :
    ∃ st', step st .endBlock [RBRACE] = .ok (.goOn st') ∧ Ready st' ∧ st'.config = st.config := by
  rw [step_inert h.flags .endBlock (by decide) (by decide)]
  unfold transition
  simp only
  rw [if_pos ⟨by have := h.last; tauto, by rw [h.brackets]; decide⟩]
  exact ⟨_, rfl, ⟨rfl, Or.inr (Or.inr rfl), by simp only [h.brackets]⟩, rfl⟩

/-- the flags of an open block -/
def Servlet.flags : Servlet → Flags
  | .static _ => { expectHandlerType := true, expectStaticRoot := true }
  | .redirect _ => { expectHandlerType := true, expectRedirectHost := true }
  | .proxy _ _ => { expectHandlerType := true, expectProxyHost := true }
  | .blog _ => { expectHandlerType := true, expectBlogInfo := true }
  | _ => {}

theorem Servlet.flags_quiet (s : Servlet) : s.flags.Quiet := by cases s <;> constructor <;> rfl

/-- what is entered at the handler's name, and the location that is kept for the block -/
def Servlet.enterAtName (s : Servlet) (location : Bytes) (config : NginxConfig) : Bytes × NginxConfig :=
  match s with
  | .echo => ([], { config with echoLocations := config.echoLocations.insert location })
  | .status => ([], { config with statusLocations := config.statusLocations.insert location })
  | .health => ([], { config with healthLocations := config.healthLocations.insert location })
  | .uploadForm => ([], { config with uploadFormLocations := config.uploadFormLocations.insert location })
  | _ => (location, config)

/-- the flags with the one that asks for the value of the field -/
def BlogField.saveFlags : BlogField → Flags
  | .host => { expectHandlerType := true, expectBlogInfo := true, saveBlogIpVal := true }
  | .port => { expectHandlerType := true, expectBlogInfo := true, saveBlogPort := true }
  | .username => { expectHandlerType := true, expectBlogInfo := true, saveBlogUsername := true }
  | .password => { expectHandlerType := true, expectBlogInfo := true, saveBlogPassword := true }

/-- the table of the field, with an entry -/
def BlogField.enter (f : BlogField) (location value : Bytes) (config : NginxConfig) : NginxConfig :=
  match f with
  | .host => { config with blogIps := config.blogIps.insert location value }
  | .port => { config with blogPorts := config.blogPorts.insert location value }
  | .username => { config with blogUsernames := config.blogUsernames.insert location value }
  | .password => { config with blogPasswords := config.blogPasswords.insert location value }

section Turns

variable (location host : Bytes) (registry : Registry) (brackets : ℕ) (stack : List (List Statement))
  (config : NginxConfig) (value : Bytes)

/-- the location of a block -/
theorem step_newLocation :
    step ⟨{ seenLocation := true }, location, host, registry, .normal, brackets, stack, config⟩ .normal
        (Lexeme.quoted value).text =
      .ok (.goOn ⟨{ expectHandlerType := true }, value, host, registry, .normal, brackets,
        addToken .normal (Lexeme.quoted value).text stack, config⟩) := by
  have hunquote : unquote (Lexeme.quoted value).text = .ok value := unquote_quoted value
  rw [step_stages rfl rfl rfl rfl rfl rfl rfl rfl (by simp only [newLocation, saveUnquoted, hunquote]; rfl)]
  rw [keyword_other _ (quoted_not_keyword value)]
  rfl

/-- the name of a handler -/
theorem step_handler (s : Servlet) :
    step ⟨{ expectHandlerType := true }, location, host, registry, .normal, brackets, stack, config⟩ .normal s.handler =
      .ok (.goOn ⟨s.flags, (s.enterAtName location config).1, host, registry.note s.handler, .normal, brackets,
        addToken .normal s.handler stack, (s.enterAtName location config).2⟩) := by
  cases s <;> rfl

/-- the root of a `StaticHandler`, which goes on without its quotes -/
theorem step_root :
    step ⟨{ expectHandlerType := true, expectStaticRoot := true, saveRootVal := true }, location, host, registry,
        .normal, brackets, stack, config⟩ .normal (Lexeme.quoted value).text =
      .ok (.goOn ⟨keyword {} value, [], host, registry, .normal, brackets, addToken .normal value stack,
        { config with staticLocations := config.staticLocations.insert location value }⟩) := by
  have hunquote : unquote (Lexeme.quoted value).text = .ok value := unquote_quoted value
  rw [step_stages rfl (by simp only [saveRoot, hunquote]; rfl) rfl rfl rfl rfl rfl rfl rfl]
  rfl

/-- the host of a `RedirectHandler` -/
theorem step_redirectHost :
    step ⟨{ expectHandlerType := true, expectRedirectHost := true, saveRedirectHostVal := true }, location, host,
        registry, .normal, brackets, stack, config⟩ .normal (Lexeme.quoted value).text =
      .ok (.goOn ⟨{}, location, host, registry, .normal, brackets, addToken .normal (Lexeme.quoted value).text stack,
        { config with redirectLocations := config.redirectLocations.insert location value }⟩) := by
  have hunquote : unquote (Lexeme.quoted value).text = .ok value := unquote_quoted value
  rw [step_stages rfl rfl rfl (by simp only [saveRedirectHost, saveUnquoted, hunquote]; rfl) rfl rfl rfl rfl rfl]
  rw [keyword_other _ (quoted_not_keyword value)]
  rfl

/-- the host of a `ProxyHandler` -/
theorem step_proxyHost :
    step ⟨{ expectHandlerType := true, expectProxyHost := true, saveProxyHostVal := true }, location, host,
        registry, .normal, brackets, stack, config⟩ .normal (Lexeme.quoted value).text =
      .ok (.goOn ⟨{ expectProxyPort := true }, location, value, registry, .normal, brackets,
        addToken .normal (Lexeme.quoted value).text stack, config⟩) := by
  have hunquote : unquote (Lexeme.quoted value).text = .ok value := unquote_quoted value
  rw [step_stages rfl rfl (by simp only [saveProxyHost, saveUnquoted, hunquote]; rfl) rfl rfl rfl rfl rfl rfl]
  rw [keyword_other _ (quoted_not_keyword value)]
  rfl

/-- the port of a `ProxyHandler` -/
theorem step_proxyPort (port : Port) :
    step ⟨{ expectProxyPort := true, saveProxyPortVal := true }, location, host, registry, .normal, brackets, stack,
        config⟩ .normal (decimal port.1) =
      .ok (.goOn ⟨{ expectProxyPort := true }, [], host, registry, .normal, brackets,
        addToken .normal (decimal port.1) stack,
        { config with proxyLocations := config.proxyLocations.insert location (host, (port.1 : ℤ)) }⟩) := by
  have hvalid : isValidPortNum (decimal port.1) = some true := by
    rw [isValidPortNum, afterColon_decimal, stoi_port, Option.map_some, decide_eq_true (port_inRange port)]
  rw [step_stages (by simp only [saveProxyPort, savePort, hvalid, stoi_port]; rfl) rfl rfl rfl rfl rfl rfl rfl rfl]
  rw [keyword_other _ (decimal_not_keyword port.1)]
  rfl

/-- the port of the server -/
theorem step_port (port : Port) :
    step ⟨{ savePortVal := true }, location, host, registry, .normal, brackets, stack, config⟩ .normal
        (decimal port.1) =
      .ok (.goOn ⟨{}, location, host, registry, .normal, brackets, addToken .normal (decimal port.1) stack,
        { config with portNumber := (port.1 : ℤ) }⟩) := by
  have hset : setConfigPortNumberFromToken (decimal port.1) config = { config with portNumber := (port.1 : ℤ) } := by
    unfold setConfigPortNumberFromToken
    rw [afterColon_decimal, stoi_port]
    simp only
    rw [if_pos (port_inRange port)]
  rw [step_stages rfl rfl rfl rfl rfl rfl rfl rfl rfl]
  simp only [savePort, hset, if_true]
  rw [keyword_other _ (decimal_not_keyword port.1)]
  rfl

/-- a field of a `BlogHandler` -/
theorem step_blogField (f : BlogField) :
    step ⟨f.saveFlags, location, host, registry, .normal, brackets, stack, config⟩ .normal
        (Lexeme.quoted value).text =
      .ok (.goOn ⟨{ expectHandlerType := true, expectBlogInfo := true }, location, host,
        registry.note (Lexeme.quoted value).text, .normal, brackets, addToken .normal (Lexeme.quoted value).text stack,
        f.enter location value config⟩) := by
  have hunquote : unquote (Lexeme.quoted value).text = .ok value := unquote_quoted value
  have hnote (st : ParseState) (hst : st.flags.seenLocation = false) :
      newLocation (handlerType st (Lexeme.quoted value).text) (Lexeme.quoted value).text =
        .ok { st with registry := if st.flags.expectHandlerType then
          st.registry.note (Lexeme.quoted value).text else st.registry } := by
    rw [handlerType_other st (quoted_not_handler value)]
    exact saveUnquoted_off hst _ _ _
  cases f with
  | host =>
    rw [step_stages rfl rfl rfl rfl (by simp only [saveBlogIp, saveUnquoted, hunquote]; rfl) rfl rfl rfl (hnote _ rfl),
      keyword_other _ (quoted_not_keyword value)]
    rfl
  | port =>
    rw [step_stages rfl rfl rfl rfl rfl (by simp only [saveBlogPort, saveUnquoted, hunquote]; rfl) rfl rfl
      (hnote _ rfl), keyword_other _ (quoted_not_keyword value)]
    rfl
  | username =>
    rw [step_stages rfl rfl rfl rfl rfl rfl (by simp only [saveBlogUsername, saveUnquoted, hunquote]; rfl) rfl
      (hnote _ rfl), keyword_other _ (quoted_not_keyword value)]
    rfl
  | password =>
    rw [step_stages rfl rfl rfl rfl rfl rfl rfl (by simp only [saveBlogPassword, saveUnquoted, hunquote]; rfl)
      (hnote _ rfl), keyword_other _ (quoted_not_keyword value)]
    rfl

end Turns

/-! ## Runs over a statement -/

/-- a keyword and the value it asks for -/
theorem run_value (st : ParseState) (name : Bytes) (value : Lexeme) (hq : st.flags.Quiet)
    (hlast : st.lastTokenType = .start ∨ st.lastTokenType = .statementEnd ∨ st.lastTokenType = .startBlock ∨
      st.lastTokenType = .endBlock) (hname : name ∉ handlerNames) {f : Flags} {location host : Bytes}
    {config : NginxConfig}
    (hsave : ∀ registry stack, ∃ registry' stack',
      step ⟨keyword st.flags name, st.location, st.storeProxyLocationToken, registry, .normal, st.brackets, stack,
        st.config⟩ value.tokenType value.text =
      .ok (.goOn ⟨f, location, host, registry', .normal, st.brackets, stack', config⟩)) :
    ∃ registry stack, run st [.word name, value] =
      .ok (.goOn ⟨f, location, host, registry, .normal, st.brackets, stack, config⟩) := by
  obtain ⟨stack, registry, hkeyword⟩ := step_keyword hq hlast hname
  obtain ⟨registry', stack', hvalue⟩ := hsave registry stack
  refine ⟨registry', stack', ?_⟩
  rw [run_cons (l := .word name) hkeyword, run_cons hvalue]
  rfl

/-- a keyword, the value it asks for and a `;` -/
theorem run_setting (st : ParseState) (name : Bytes) (value : Lexeme) (hq : st.flags.Quiet)
    (hlast : st.lastTokenType = .start ∨ st.lastTokenType = .statementEnd ∨ st.lastTokenType = .startBlock ∨
      st.lastTokenType = .endBlock) (hname : name ∉ handlerNames) {f : Flags} (hf : f.Quiet)
    {location host : Bytes} {config : NginxConfig}
    (hsave : ∀ registry stack, ∃ registry' stack',
      step ⟨keyword st.flags name, st.location, st.storeProxyLocationToken, registry, .normal, st.brackets, stack,
        st.config⟩ value.tokenType value.text =
      .ok (.goOn ⟨f, location, host, registry', .normal, st.brackets, stack', config⟩)) :
    ∃ registry stack, run st [.word name, value, .semicolon] =
      .ok (.goOn ⟨f, location, host, registry, .statementEnd, st.brackets, stack, config⟩) := by
  obtain ⟨registry, stack, hrun⟩ := run_value st name value hq hlast hname hsave
  obtain ⟨registry', hsemicolon⟩ :=
    step_semicolon ⟨f, location, host, registry, .normal, st.brackets, stack, config⟩ hf rfl
  have hall : run st ([.word name, value] ++ [.semicolon]) =
      .ok (.goOn ⟨f, location, host, registry', .statementEnd, st.brackets, stack, config⟩) := by
    rw [run_append hrun, run_cons (l := .semicolon) hsemicolon, run]
  exact ⟨registry', stack, hall⟩

/-- the flags that a root without its quotes may set -/
theorem keyword_none (token : Bytes) :
    keyword {} token = {} ∨ keyword {} token = { savePortVal := true } ∨
      keyword {} token = { seenLocation := true } := by
  unfold keyword
  split_ifs <;> simp_all

/-- the `;` after a root, on which the flag that the root may have set is spent -/
theorem step_afterRoot (root host : Bytes) (registry : Registry) (brackets : ℕ) (stack : List (List Statement))
    (config : NginxConfig) :
    ∃ f location, Flags.Quiet f ∧
      step ⟨keyword {} root, [], host, registry, .normal, brackets, stack, config⟩ .statementEnd [SEMI] =
        .ok (.goOn ⟨f, location, host, registry, .statementEnd, brackets, stack, config⟩) := by
  rcases keyword_none root with h | h | h <;> rw [h]
  · exact ⟨{}, [], quiet_none, rfl⟩
  · -- `port`: the `;` is no number, and the port stays as it is
    have hset : setConfigPortNumberFromToken [SEMI] config = config := by
      rw [setConfigPortNumberFromToken, (by decide : stoi (afterColon [SEMI]) = none)]
    refine ⟨{}, [], quiet_none, ?_⟩
    rw [step_stages rfl rfl rfl rfl rfl rfl rfl rfl rfl]
    simp only [savePort, hset, if_true]
    rfl
  · -- `location`: the `;` makes the location empty and a handler is expected, until the `}`
    exact ⟨{ expectHandlerType := true }, [], by constructor <;> rfl, rfl⟩

/-! ## Runs over a block -/

theorem run_root {st : ParseState} (h : InBlock st) {root : Quotable} (hflags : st.flags = (Servlet.static root).flags) :
    ∃ st', run st (setting (ascii "root") root) = .ok (.goOn st') ∧ InBlock st' ∧
      st'.config =
        { st.config with staticLocations := st.config.staticLocations.insert st.location root.1 } := by
  obtain ⟨registry, stack, hrun⟩ := run_value _ (ascii "root") (.quoted root.1) h.flags
    (by have := h.last; tauto) (by decide) fun registry stack =>
      ⟨registry, _, by rw [hflags]; exact step_root _ _ _ _ _ _ _⟩
  obtain ⟨f, location, hf, hsemicolon⟩ :=
    step_afterRoot root.1 st.storeProxyLocationToken registry st.brackets stack
      { st.config with staticLocations := st.config.staticLocations.insert st.location root.1 }
  have hall := (run_append hrun [.semicolon]).trans (run_cons (l := .semicolon) hsemicolon [])
  exact ⟨_, hall, ⟨hf, Or.inr rfl, h.brackets⟩, rfl⟩

theorem run_redirectHost {st : ParseState} (h : InBlock st) {host : Quotable}
    (hflags : st.flags = (Servlet.redirect host).flags) :
    ∃ st', run st (setting (ascii "host") host) = .ok (.goOn st') ∧ InBlock st' ∧
      st'.config =
        { st.config with redirectLocations := st.config.redirectLocations.insert st.location host.1 } := by
  obtain ⟨registry, stack, hrun⟩ := run_setting _ (ascii "host") (.quoted host.1) h.flags
    (by have := h.last; tauto) (by decide) quiet_none fun registry stack =>
      ⟨registry, _, by rw [hflags]; exact step_redirectHost _ _ _ _ _ _ _⟩
  exact ⟨_, hrun, ⟨quiet_none, Or.inr rfl, h.brackets⟩, rfl⟩

theorem run_proxyServer {st : ParseState} (h : InBlock st) {host : Quotable} {port : Port}
    (hflags : st.flags = (Servlet.proxy host port).flags) :
    ∃ st', run st (setting (ascii "host") host ++ portStatement port) = .ok (.goOn st') ∧ InBlock st' ∧
      st'.config =
        { st.config with
          proxyLocations := st.config.proxyLocations.insert st.location (host.1, (port.1 : ℤ)) } := by
  have hquiet : Flags.Quiet { expectProxyPort := true } := by constructor <;> rfl
  obtain ⟨registry, stack, hhost⟩ := run_setting _ (ascii "host") (.quoted host.1) h.flags
    (by have := h.last; tauto) (by decide) hquiet fun registry stack =>
      ⟨registry, _, by rw [hflags]; exact step_proxyHost _ _ _ _ _ _ _⟩
  obtain ⟨registry, stack, hport⟩ := run_setting
    ⟨{ expectProxyPort := true }, st.location, host.1, registry, .statementEnd, st.brackets, stack, st.config⟩
    (ascii "port") (.word (decimal port.1)) hquiet (Or.inr (Or.inl rfl)) (by decide) hquiet fun registry stack =>
      ⟨registry, _, step_proxyPort _ _ _ _ _ _ port⟩
  exact ⟨_, (run_append hhost _).trans hport, ⟨hquiet, Or.inr rfl, h.brackets⟩, rfl⟩

theorem run_blogField {st : ParseState} (h : InBlock st)
    (hflags : st.flags = { expectHandlerType := true, expectBlogInfo := true }) (f : BlogField) (value : Quotable) :
    ∃ st', run st (setting f.keyword value) = .ok (.goOn st') ∧ InBlock st' ∧
      st'.flags = { expectHandlerType := true, expectBlogInfo := true } ∧ st'.location = st.location ∧
      st'.config = f.enter st.location value.1 st.config := by
  have hquiet : Flags.Quiet { expectHandlerType := true, expectBlogInfo := true } := by constructor <;> rfl
  have hname : f.keyword ∉ handlerNames := by cases f <;> decide
  have hsave : keyword st.flags f.keyword = f.saveFlags := by
    rw [hflags]
    cases f <;> rfl
  obtain ⟨registry, stack, hrun⟩ := run_setting _ f.keyword (.quoted value.1) h.flags
    (by have := h.last; tauto) hname hquiet fun registry stack =>
      ⟨_, _, by rw [hsave]; exact step_blogField _ _ _ _ _ _ _ f⟩
  exact ⟨_, hrun, ⟨hquiet, Or.inr rfl, h.brackets⟩, rfl, rfl, rfl⟩

/-- the fields of a blog block, one after the other -/
theorem run_blogFields {st : ParseState} (h : InBlock st)
    (hflags : st.flags = { expectHandlerType := true, expectBlogInfo := true }) (fields : List BlogField)
    (value : BlogField → Quotable) :
    ∃ st', run st (fields.flatMap fun f => setting f.keyword (value f)) = .ok (.goOn st') ∧ InBlock st' ∧
      st'.config = fields.foldl (fun config f => f.enter st.location (value f).1 config) st.config := by
  induction fields generalizing st with
  | nil => exact ⟨st, rfl, h, rfl⟩
  | cons f fields ih =>
    obtain ⟨st₁, hrun₁, h₁, hflags₁, hlocation, hconfig⟩ := run_blogField h hflags f (value f)
    obtain ⟨st₂, hrun₂, h₂, hconfig₂⟩ := ih h₁ hflags₁
    refine ⟨st₂, (run_append hrun₁ _).trans hrun₂, h₂, ?_⟩
    rw [hconfig₂, hlocation, hconfig]
    rfl

/-- the tables of different fields are different, so the order of the fields does not matter -/
theorem BlogField.enter_comm (location : Bytes) (value : BlogField → Quotable) (f g : BlogField)
    (config : NginxConfig) :
    g.enter location (value g).1 (f.enter location (value f).1 config) =
      f.enter location (value f).1 (g.enter location (value g).1 config) := by
  cases f <;> cases g <;> rfl

theorem enter_all (info : BlogInfo) (location : Bytes) (config : NginxConfig) :
    info.order.foldl (fun config f => f.enter location (info.value f).1 config) config =
      [BlogField.host, .port, .username, .password].foldl
        (fun config f => f.enter location (info.value f).1 config) config := by
  have hcomm : RightCommutative fun config (f : BlogField) => f.enter location (info.value f).1 config :=
    ⟨fun config f g => BlogField.enter_comm location info.value f g config⟩
  exact info.complete.foldl_eq config

/-- the statements of a block enter what it declares, unless its handler's name has entered it -/
theorem run_statements (st : ParseState) (h : InBlock st) (b : Block) (config : NginxConfig)
    (hflags : st.flags = b.servlet.flags) (hlocation : st.location = (b.servlet.enterAtName b.location.1 config).1)
    (hconfig : st.config = (b.servlet.enterAtName b.location.1 config).2) :
    ∃ st', run st b.servlet.statements = .ok (.goOn st') ∧ InBlock st' ∧ st'.config = config.declare b := by
  obtain ⟨location, servlet⟩ := b
  cases servlet with
  | echo | status | health | uploadForm => exact ⟨st, rfl, h, hconfig⟩
  | static root =>
    obtain ⟨st', hrun, hblock, hdone⟩ := run_root h hflags
    rw [hlocation, hconfig] at hdone
    exact ⟨st', hrun, hblock, hdone⟩
  | redirect host =>
    obtain ⟨st', hrun, hblock, hdone⟩ := run_redirectHost h hflags
    rw [hlocation, hconfig] at hdone
    exact ⟨st', hrun, hblock, hdone⟩
  | proxy host port =>
    obtain ⟨st', hrun, hblock, hdone⟩ := run_proxyServer h hflags
    rw [hlocation, hconfig] at hdone
    exact ⟨st', hrun, hblock, hdone⟩
  | blog info =>
    obtain ⟨st', hrun, hblock, hdone⟩ := run_blogFields h hflags info.order info.value
    rw [enter_all, hlocation, hconfig] at hdone
    exact ⟨st', hrun, hblock, hdone⟩

/-- the `{` of a block -/
theorem step_open (st : ParseState) (hq : st.flags.Quiet) (hlast : st.lastTokenType = .normal) :
    ∃ registry, step st .startBlock [LBRACE] = .ok (.goOn
      ⟨st.flags, st.location, st.storeProxyLocationToken, registry, .startBlock, st.brackets + 1, [] :: st.stack,
        st.config⟩) := by
  rw [step_inert hq .startBlock (by decide) (by decide)]
  unfold transition
  simp only
  rw [if_pos hlast]
  exact ⟨_, rfl⟩

/-- `location "…" Handler`, which records the handler -/
theorem run_handler {st : ParseState} (h : Ready st) (hregistry : st.registry.Consistent) (b : Block) :
    ∃ registry stack, registry.Consistent ∧ b.servlet.handler ∈ registry.handlerTypes ∧
      run st [.word (ascii "location"), .quoted b.location.1, .word b.servlet.handler] =
        .ok (.goOn ⟨b.servlet.flags, (b.servlet.enterAtName b.location.1 st.config).1, st.storeProxyLocationToken,
          registry, .normal, 0, stack, (b.servlet.enterAtName b.location.1 st.config).2⟩) := by
  obtain ⟨registry, stack, hrun⟩ := run_value _ (ascii "location") (.quoted b.location.1)
    (by rw [h.flags]; exact quiet_none) (by have := h.last; tauto) (by decide) fun registry stack =>
      ⟨registry, _, by rw [h.flags]; exact step_newLocation _ _ _ _ _ _ _⟩
  have hname := step_handler b.location.1 st.storeProxyLocationToken registry 0 stack st.config b.servlet
  have hconsistent := (run_registry hrun hregistry).1
  rw [h.brackets] at hrun
  have hall := (run_append hrun _).trans (run_cons (l := .word b.servlet.handler) hname [])
  exact ⟨_, _, hconsistent.note _, registry.note_mem _ hconsistent, hall⟩

/-- **A block is read** as what it declares. -/
theorem run_block {st : ParseState} (h : Ready st) (hregistry : st.registry.Consistent) (b : Block) :
    ∃ st', run st b.lexemes = .ok (.goOn st') ∧ Ready st' ∧ st'.config = st.config.declare b ∧
      b.servlet.handler ∈ st'.registry.handlerTypes := by
  obtain ⟨registry, stack, hconsistent, hmem, hhandler⟩ := run_handler h hregistry b
  set named : ParseState := ⟨b.servlet.flags, (b.servlet.enterAtName b.location.1 st.config).1,
    st.storeProxyLocationToken, registry, .normal, 0, stack, (b.servlet.enterAtName b.location.1 st.config).2⟩
  obtain ⟨registry', hopen⟩ := step_open named b.servlet.flags_quiet rfl
  set opened : ParseState := ⟨named.flags, named.location, named.storeProxyLocationToken, registry', .startBlock,
    named.brackets + 1, [] :: named.stack, named.config⟩
  obtain ⟨st₁, hstatements, hblock, hconfig⟩ := run_statements opened
    ⟨b.servlet.flags_quiet, Or.inl rfl, rfl⟩ b st.config rfl rfl rfl
  obtain ⟨st₂, hclose, hready, hsame⟩ := step_close hblock
  have hrest : run named (.openBrace :: (b.servlet.statements ++ [.closeBrace])) = .ok (.goOn st₂) := by
    rw [run_cons (l := .openBrace) hopen, run_append hstatements, run_cons (l := .closeBrace) hclose]
    rfl
  refine ⟨st₂, (run_append hhandler _).trans hrest, hready, hsame.trans hconfig, ?_⟩
  exact (run_registry hrest hconsistent).2 _ hmem

/-! ## Runs over a configuration -/

/-- blocks, and between two of them perhaps `port N;` -/
structure ConfigFile where
  before : List Block
  port : Option Port
  after : List Block
  distinct : ((before ++ after).map Block.location).Nodup

namespace ConfigFile

def blocks (file : ConfigFile) : List Block := file.before ++ file.after

def lexemes (file : ConfigFile) : List Lexeme :=
  file.before.flatMap Block.lexemes ++ (file.port.elim [] portStatement ++ file.after.flatMap Block.lexemes)

end ConfigFile

/-- what a run has come to after the blocks -/
structure Reads (st : ParseState) (port : ℤ) (blocks : List Block) : Prop where
  ready : Ready st
  registry : st.registry.Consistent
  port : st.config.portNumber = port
  declares : Declares st.config blocks
  handlers : ∀ b ∈ blocks, b.servlet.handler ∈ st.registry.handlerTypes

theorem run_blocks {st : ParseState} {port : ℤ} {done : List Block} (h : Reads st port done) (blocks : List Block)
    (hdistinct : ((done ++ blocks).map Block.location).Nodup) :
    ∃ st', run st (blocks.flatMap Block.lexemes) = .ok (.goOn st') ∧ Reads st' port (done ++ blocks) := by
  induction blocks generalizing st done with
  | nil => exact ⟨st, rfl, by rw [List.append_nil]; exact h⟩
  | cons b blocks ih =>
    obtain ⟨st₁, hrun₁, hready, hconfig, hmem⟩ := run_block h.ready h.registry b
    obtain ⟨hconsistent, hkept⟩ := run_registry hrun₁ h.registry
    have hnew : ∀ a ∈ done, a.location ≠ b.location := by
      intro a ha he
      rw [List.map_append, List.map_cons, List.nodup_append] at hdistinct
      exact hdistinct.2.2 _ (List.mem_map_of_mem ha) _ List.mem_cons_self he
    have h₁ : Reads st₁ port (done ++ [b]) := by
      refine ⟨hready, hconsistent, ?_, ?_, ?_⟩
      · rw [hconfig]
        exact h.port
      · rw [hconfig]
        exact h.declares.declare hnew
      · intro a ha
        rcases List.mem_append.1 ha with ha | ha
        · exact hkept _ (h.handlers a ha)
        · rw [List.mem_singleton.1 ha]
          exact hmem
    rw [List.append_cons] at hdistinct ⊢
    obtain ⟨st₂, hrun₂, h₂⟩ := ih h₁ hdistinct
    exact ⟨st₂, (run_append hrun₁ _).trans hrun₂, h₂⟩

/-- `port N;` between two blocks -/
theorem run_port {st : ParseState} {unset : ℤ} {done : List Block} (h : Reads st unset done) (port : Option Port) :
    ∃ st', run st (port.elim [] portStatement) = .ok (.goOn st') ∧
      Reads st' (port.elim unset fun n => (n.1 : ℤ)) done := by
  cases port with
  | none => exact ⟨st, rfl, h⟩
  | some n =>
    obtain ⟨registry, stack, hrun⟩ := run_setting _ (ascii "port") (.word (decimal n.1))
      (by rw [h.ready.flags]; exact quiet_none) (by have := h.ready.last; tauto) (by decide) quiet_none
      fun registry stack => ⟨registry, _, by rw [h.ready.flags]; exact step_port _ _ _ _ _ _ n⟩
    obtain ⟨hconsistent, hkept⟩ := run_registry hrun h.registry
    refine ⟨_, hrun, ⟨rfl, Or.inr (Or.inl rfl), h.ready.brackets⟩, hconsistent, rfl, ?_,
      fun b hb => hkept _ (h.handlers b hb)⟩
    obtain ⟨h1, h2, h3, h4, h5, h6, h7, h8, h9, h10, h11⟩ := h.declares
    exact ⟨h1, h2, h3, h4, h5, h6, h7, h8, h9, h10, h11⟩

/-! ## The round trip -/

theorem isWordByte_digit {c : UInt8} (h : isDigit c = true) : isWordByte c = true := by
  by_contra hword
  simp only [isWordByte, List.contains_eq_mem, Bool.not_eq_true', decide_eq_false_iff_not, not_not, List.mem_cons,
    List.not_mem_nil, or_false] at hword
  rcases hword with rfl | rfl | rfl | rfl | rfl | rfl | rfl | rfl | rfl | rfl <;> cases h

theorem decimal_wellFormed (n : ℕ) : (Lexeme.word (decimal n)).WellFormed := by
  exact ⟨decimal_ne_nil n, fun c hc => isWordByte_digit (isDigit_decimal n c hc)⟩

theorem handler_wellFormed (s : Servlet) : (Lexeme.word s.handler).WellFormed := by
  have hall : ∀ name ∈ handlerNames, name ≠ [] ∧ ∀ c ∈ name, isWordByte c = true := by decide
  have hmem : s.handler ∈ handlerNames := by cases s <;> simp [Servlet.handler, handlerNames]
  exact hall _ hmem

theorem setting_wellFormed {name : Bytes} (hname : (Lexeme.word name).WellFormed) (value : Quotable) :
    ∀ l ∈ setting name value, l.WellFormed := by
  intro l hl
  simp only [setting, List.mem_cons, List.not_mem_nil, or_false] at hl
  rcases hl with rfl | rfl | rfl
  · exact hname
  · exact value.2
  · trivial

theorem portStatement_wellFormed (port : Port) : ∀ l ∈ portStatement port, l.WellFormed := by
  intro l hl
  simp only [portStatement, List.mem_cons, List.not_mem_nil, or_false] at hl
  rcases hl with rfl | rfl | rfl
  · exact ⟨by decide, by decide⟩
  · exact decimal_wellFormed port.1
  · trivial

theorem statements_wellFormed (s : Servlet) : ∀ l ∈ s.statements, l.WellFormed := by
  have hhost : (Lexeme.word (ascii "host")).WellFormed := ⟨by decide, by decide⟩
  cases s with
  | echo | status | health | uploadForm => intro l hl; cases hl
  | static root => exact setting_wellFormed ⟨by decide, by decide⟩ root
  | redirect host => exact setting_wellFormed hhost host
  | proxy host port =>
    intro l hl
    rcases List.mem_append.1 hl with hl | hl
    · exact setting_wellFormed hhost host l hl
    · exact portStatement_wellFormed port l hl
  | blog info =>
    intro l hl
    obtain ⟨f, -, hf⟩ := List.mem_flatMap.1 hl
    have hname : (Lexeme.word f.keyword).WellFormed := by cases f <;> exact ⟨by decide, by decide⟩
    exact setting_wellFormed hname (info.value f) l hf

theorem block_wellFormed (b : Block) : ∀ l ∈ b.lexemes, l.WellFormed := by
  intro l hl
  simp only [Block.lexemes, List.mem_append, List.mem_cons, List.not_mem_nil, or_false] at hl
  rcases hl with ((rfl | rfl | rfl | rfl) | hl) | rfl
  · exact ⟨by decide, by decide⟩
  · exact b.location.2
  · exact handler_wellFormed b.servlet
  · trivial
  · exact statements_wellFormed b.servlet l hl
  · trivial

theorem ConfigFile.wellFormed (file : ConfigFile) : ∀ l ∈ file.lexemes, l.WellFormed := by
  intro l hl
  simp only [ConfigFile.lexemes, List.mem_append, List.mem_flatMap] at hl
  rcases hl with ⟨b, -, hb⟩ | hport | ⟨b, -, hb⟩
  · exact block_wellFormed b l hb
  · cases hp : file.port with
    | none => rw [hp] at hport; cases hport
    | some n => rw [hp] at hport; exact portStatement_wellFormed n l hport
  · exact block_wellFormed b l hb

theorem reads_initial : Reads (.initial .fresh) (-1) [] where
  ready := ⟨rfl, Or.inl rfl, rfl⟩
  registry := ⟨fun _ => Iff.rfl, List.nodup_nil⟩
  port := rfl
  declares := declares_fresh
  handlers := fun _ hb => nomatch hb

theorem run_file (file : ConfigFile) :
    ∃ st', run (.initial .fresh) file.lexemes = .ok (.goOn st') ∧
      Reads st' (file.port.elim (-1) fun n => (n.1 : ℤ)) file.blocks := by
  have hbefore : ((([] : List Block) ++ file.before).map Block.location).Nodup := by
    have := file.distinct
    rw [List.map_append, List.nodup_append] at this
    exact this.1
  obtain ⟨st₁, hrun₁, h₁⟩ := run_blocks reads_initial file.before hbefore
  obtain ⟨st₂, hrun₂, h₂⟩ := run_port h₁ file.port
  obtain ⟨st₃, hrun₃, h₃⟩ := run_blocks h₂ file.after file.distinct
  exact ⟨st₃, (run_append hrun₁ _).trans ((run_append hrun₂ _).trans hrun₃), h₃⟩

/-- a configuration is accepted, however its tokens are spaced -/
theorem parse_file (file : ConfigFile) {text : Bytes} (htext : Spaced file.lexemes text) :
    ∃ st', parse .fresh text = .ok (true, st'.result) ∧
      Reads st' (file.port.elim (-1) fun n => (n.1 : ℤ)) file.blocks := by
  obtain ⟨st', hrun, h⟩ := run_file file
  exact ⟨st', parse_spaced htext file.wellFormed hrun h.ready.flags (by have := h.ready.last; tauto) h.ready.brackets, h⟩

/-- **The round trip.** However the tokens of a configuration are spaced, it is accepted: the port is the one stated,
every table holds exactly what is declared, and the handler of every block is recorded once. -/
theorem parse_roundTrip (file : ConfigFile) {text : Bytes} (htext : Spaced file.lexemes text) :
    ∃ config, parse .fresh text = .ok (true, config) ∧
      config.portNumber = file.port.elim (-1) (fun n => (n.1 : ℤ)) ∧ Declares config file.blocks ∧
      ∀ b ∈ file.blocks, config.handlerTypes.count b.servlet.handler = 1 := by
  obtain ⟨st', hparse, h⟩ := parse_file file htext
  refine ⟨st'.result, hparse, h.port, ?_, fun b hb => ?_⟩
  · obtain ⟨h1, h2, h3, h4, h5, h6, h7, h8, h9, h10, h11⟩ := h.declares
    exact ⟨h1, h2, h3, h4, h5, h6, h7, h8, h9, h10, h11⟩
  · exact List.count_eq_one_of_mem h.registry.nodup (h.handlers b hb)

/-- a root that is a keyword, after the port -/
theorem parse_roundTrip_keywordRoot :
    ∃ config,
      parse .fresh (ascii "port 80 ; location \"/a b\" StaticHandler \x7b root \"port\" ; \x7d ") = .ok (true, config) ∧
      config.portNumber = 80 ∧ config.staticLocations.lookup (ascii "/a b") = some (ascii "port") := by
  obtain ⟨config, hparse, hport, hdeclares, -⟩ := parse_roundTrip
    ⟨[], some 80, [⟨⟨ascii "/a b", by decide⟩, .static ⟨ascii "port", by decide⟩⟩], by decide⟩ (Spaced.single _)
  have htext : ascii "port 80 ; location \"/a b\" StaticHandler \x7b root \"port\" ; \x7d " =
      (ConfigFile.lexemes ⟨[], some 80, [⟨⟨ascii "/a b", by decide⟩, .static ⟨ascii "port", by decide⟩⟩],
        by decide⟩).flatMap fun l => l.text ++ [SP] := by decide +kernel
  refine ⟨config, ?_, hport, ?_⟩
  · rw [htext, hparse]
  · exact (hdeclares.static _ _).2 ⟨_, List.mem_singleton.2 rfl, rfl, rfl⟩

end BlogServer.Config
