/-
The two port fields.

`SetConfigPortNumberFromToken` reads the port of the server behind the first colon of the token, checks that it is one,
and leaves the config as it is when it is none. The port of a proxy is checked like that, but it is the whole token that
is read, and when it is none the parse ends in a fault. So a token is read alike exactly when it is a port behind its
first colon, and the same number from its first byte on (`proxy_port_alike_iff`).

- `setConfigPortNumberFromToken_eq`: what the port of the server is set to.
- `values_proxyPort`: what a turn makes of the port of a proxy.
-/
import BlogServer.Config.Comments

namespace BlogServer.Config

open BlogServer.Byte BlogServer.Decimal

/-! ## Ports -/

/-- the port that `SetConfigPortNumberFromToken` stores for a token, if it stores one -/
def serverPort (token : Bytes) : Option ℤ := (stoi (afterColon token)).filter fun n => decide (0 ≤ n ∧ n ≤ 65535)

theorem setConfigPortNumberFromToken_eq (token : Bytes) (config : NginxConfig) :
    setConfigPortNumberFromToken token config =
      match serverPort token with
      | none => config
      | some n => { config with portNumber := n } := by
  unfold setConfigPortNumberFromToken serverPort
  cases stoi (afterColon token) with
  | none => rfl
  | some n =>
    by_cases hport : 0 ≤ n ∧ n ≤ 65535
    · simp only [if_pos hport, Option.filter_some, decide_eq_true hport, if_true]
    · simp only [if_neg hport, Option.filter_some, decide_eq_false hport, Bool.false_eq_true, if_false]

/-- the check of the port of a proxy is passed by what would be stored for the server -/
theorem isValidPortNum_iff {token : Bytes} : isValidPortNum token = some true ↔ ∃ n, serverPort token = some n := by
  unfold isValidPortNum serverPort
  cases stoi (afterColon token) with
  | none => simp
  | some n => simp

/-- a number is no word of the language -/
theorem stoi_not_mem {token : Bytes} {n : ℤ} (h : stoi token = some n) {words : List Bytes}
    (hwords : ∀ word ∈ words, stoi word = none) : token ∉ words := by
  intro hmem
  rw [hwords token hmem] at h
  cases h

/-! ## A turn -/

section Turn

variable {e : Expects} {st : ParseState} {token : Bytes} {n : ℤ}

/-- after the port of a proxy nothing is awaited -/
theorem Expects.read_proxyPort (hawaited : e.awaited = some .proxyPort) (hkeyword : token ∉ keywords) :
    (e.read token).awaited = none := by
  have hremainder : e.remainder token = token := if_neg (by rw [hawaited]; decide)
  have hname := Expects.name_awaited token (e.receive_awaited.imp id And.left)
  rw [Expects.read, hremainder, Expects.keyword_other hkeyword]
  exact Expects.place_awaited (hname.imp id And.left)

/-- **What a turn makes of the port of a proxy**: an entry with the number that the token begins with. -/
theorem values_proxyPort (h : st.flags = e.flags) (hawaited : e.awaited = some .proxyPort)
    (hvalid : isValidPortNum token = some true) (hn : stoi token = some n) :
    ∃ st', values st token = .ok (st', token) ∧ st'.flags = (e.read token).flags ∧
      st'.config.proxyLocations = st.config.proxyLocations.insert st.location (st.storeProxyLocationToken, n) := by
  have hsupplied : e.Supplied token := by
    unfold Expects.Supplied
    rw [hawaited]
    exact ⟨hvalid, by rw [hn]; exact Option.some_ne_none n⟩
  have hremainder : e.remainder token = token := if_neg (by rw [hawaited]; decide)
  obtain ⟨st', hvalues, hflags⟩ := values_expects h hsupplied
  rw [hremainder] at hvalues
  refine ⟨st', hvalues, hflags, ?_⟩
  have hsaved : saveProxyPort st token = .ok { st with
      config := { st.config with
        proxyLocations := st.config.proxyLocations.insert st.location (st.storeProxyLocationToken, n) }
      flags := { st.flags with saveProxyPortVal := false }
      location := [] } := by
    have hflag : st.flags.saveProxyPortVal = true := by
      rw [h]
      exact decide_eq_true hawaited
    unfold saveProxyPort
    rw [if_pos hflag, hvalid]
    simp only [hn]
  have hsaves := saves_eq h token
  rw [hawaited] at hsaves
  simp only [hsaved, Except.map] at hsaves
  have hlocation : st.flags.seenLocation = false := by
    rw [h]
    exact decide_eq_false (by rw [hawaited]; decide)
  have hhandler : token ∉ handlerNames := stoi_not_mem hn (by decide)
  rw [values_eq, hsaves] at hvalues
  simp only [bind, Except.bind, handlerType_other _ hhandler] at hvalues
  rw [newLocation, saveUnquoted_off hlocation] at hvalues
  rw [← (Prod.mk.inj (Except.ok.inj hvalues)).1]

/-- a token that is no port ends the parse -/
theorem step_noProxyPort (h : st.flags = e.flags) (hawaited : e.awaited = some .proxyPort)
    (hmissing : ¬ (isValidPortNum token = some true ∧ stoi token ≠ none)) (tokenType : TokenType) :
    ∃ fault, step st tokenType token = .error fault := by
  have hsupplied : ¬ e.Supplied token := by
    unfold Expects.Supplied
    rw [hawaited]
    exact hmissing
  obtain ⟨fault, hvalues⟩ := values_missing h hsupplied
  exact ⟨fault, by rw [step_eq, hvalues]; rfl⟩

/-- a word after a word -/
theorem step_word {st' : ParseState} (hlast : st.lastTokenType = .normal)
    (hvalues : values st token = .ok (st', token)) :
    ∃ stack, step st .normal token = .ok (.goOn { st' with stack := stack, lastTokenType := .normal }) := by
  have hlast' : st'.lastTokenType = .normal := (values_blocks hvalues).lastTokenType.trans hlast
  refine ⟨addToken st'.lastTokenType token st'.stack, ?_⟩
  rw [step_eq, hvalues, Except.map, transition, if_pos (by rw [hlast']; simp)]

theorem transition_statementEnd (h : st.lastTokenType = .normal) :
    transition st .statementEnd token = .goOn { st with lastTokenType := .statementEnd } := if_pos h

/-- a `;` after a word, where nothing is awaited -/
theorem step_end (h : st.flags = e.flags) (hawaited : e.awaited = none) (hlast : st.lastTokenType = .normal) :
    ∃ st', step st .statementEnd [SEMI] = .ok (.goOn st') ∧ st'.config = st.config := by
  have hsame : (handlerType st [SEMI]).config = st.config := by rw [handlerType_other st (by decide)]
  obtain ⟨r, hvalues, hconfig⟩ : ∃ r, values st [SEMI] = .ok r ∧ r.1.config = st.config :=
    ⟨_, values_unawaited h hawaited [SEMI], hsame⟩
  have hlast' := (values_blocks hvalues).lastTokenType.trans hlast
  refine ⟨{ r.1 with lastTokenType := .statementEnd }, ?_, hconfig⟩
  rw [step_eq, hvalues, Except.map, transition_statementEnd hlast']

end Turn

/-! ## Reading alike -/

/-- the token and a `;` are read from a state as for the server: the port that would be stored there is entered, and
without one the parse goes on without an entry -/
def PortAlike (st : ParseState) (token : Bytes) : Prop :=
  ∃ st', turns st [(.normal, token), (.statementEnd, [SEMI])] = .ok (.goOn st') ∧
    st'.config.proxyLocations =
      match serverPort token with
      | none => st.config.proxyLocations
      | some n => st.config.proxyLocations.insert st.location (st.storeProxyLocationToken, n)

/-- a port and a `;` are read, and the number is entered that the token begins with -/
theorem turns_proxyPort {e : Expects} {st : ParseState} (h : st.flags = e.flags)
    (hawaited : e.awaited = some .proxyPort) (hlast : st.lastTokenType = .normal) {token : Bytes} {n : ℤ}
    (hvalid : isValidPortNum token = some true) (hn : stoi token = some n) :
    ∃ st', turns st [(.normal, token), (.statementEnd, [SEMI])] = .ok (.goOn st') ∧
      st'.config.proxyLocations = st.config.proxyLocations.insert st.location (st.storeProxyLocationToken, n) := by
  obtain ⟨st₁, hvalues, hflags, hentry⟩ := values_proxyPort h hawaited hvalid hn
  obtain ⟨stack, hword⟩ := step_word hlast hvalues
  have hnone : (e.read token).awaited = none := Expects.read_proxyPort hawaited (stoi_not_mem hn (by decide))
  have hflags' : ({ st₁ with stack := stack, lastTokenType := .normal } : ParseState).flags = (e.read token).flags :=
    hflags
  obtain ⟨st₂, hend, hsame⟩ := step_end hflags' hnone rfl
  refine ⟨st₂, ?_, ?_⟩
  · rw [turns_cons (t := (.normal, token)) hword, turns_cons (t := (.statementEnd, [SEMI])) hend, turns]
  · rw [hsame, hentry]

theorem portAlike_iff {e : Expects} {st : ParseState} (h : st.flags = e.flags)
    (hawaited : e.awaited = some .proxyPort) (hlast : st.lastTokenType = .normal) {token : Bytes} :
    PortAlike st token ↔ ∃ n, serverPort token = some n ∧ stoi token = some n := by
  constructor
  · intro halike
    obtain ⟨st', hturns, hentry⟩ := halike
    by_cases hread : isValidPortNum token = some true ∧ stoi token ≠ none
    · obtain ⟨hvalid, hnumber⟩ := hread
      obtain ⟨m, hm⟩ := Option.ne_none_iff_exists'.1 hnumber
      obtain ⟨n, hn⟩ := isValidPortNum_iff.1 hvalid
      obtain ⟨st₂, hturns', hentered⟩ := turns_proxyPort h hawaited hlast hvalid hm
      rw [hturns'] at hturns
      rw [← Progress.goOn.inj (Except.ok.inj hturns), hentered, hn] at hentry
      -- both numbers are entered under the location
      have hfound := congrArg (fun table => table.lookup st.location) hentry
      simp only [AList.lookup_insert, Option.some.injEq, Prod.mk.injEq, true_and] at hfound
      exact ⟨n, hn, by rw [hm, hfound]⟩
    · obtain ⟨fault, hfault⟩ := step_noProxyPort h hawaited hread .normal
      rw [turns, hfault] at hturns
      cases hturns
  · intro hread
    obtain ⟨n, hn, hnumber⟩ := hread
    obtain ⟨st', hturns, hentry⟩ := turns_proxyPort h hawaited hlast (isValidPortNum_iff.2 ⟨n, hn⟩) hnumber
    refine ⟨st', hturns, ?_⟩
    rw [hentry, hn]

/-- after a word the last token type is that of a word -/
theorem turns_last_normal {st st' : ParseState} {us : List Token} {token : Bytes}
    (h : turns st (us ++ [(.normal, token)]) = .ok (.goOn st')) : st'.lastTokenType = .normal := by
  obtain ⟨st₁, -, hstep⟩ := turns_concat.1 h
  rw [step_eq] at hstep
  cases hvalues : values st₁ token with
  | error fault =>
    rw [hvalues] at hstep
    cases hstep
  | ok r =>
    rw [hvalues] at hstep
    have hgoes : transition r.1 .normal r.2 = .goOn st' := Except.ok.inj hstep
    rw [transition] at hgoes
    split_ifs at hgoes
    rw [← Progress.goOn.inj hgoes]

/-- **When both port fields are read alike.** After the host of a proxy and the keyword `port`, wherever that is in a
configuration: a token is read as for the server exactly when it is a port for the server and, as a whole, begins with
the same number. -/
theorem proxy_port_alike_iff {config : NginxConfig} {us : List Token} {st : ParseState}
    (hrun : turns (.initial config) (us ++ [(.normal, ascii "port")]) = .ok (.goOn st))
    (hawaited : (expectsAfter (us ++ [(.normal, ascii "port")])).awaited = some .proxyPort) (token : Bytes) :
    PortAlike st token ↔ ∃ n, serverPort token = some n ∧ stoi token = some n :=
  portAlike_iff (turns_expects hrun) hawaited (turns_last_normal hrun)

/-- the start of a block of a proxy, up to its host -/
def proxyStart : List Token :=
  [(.normal, ascii "location"), (.normal, ascii "\"/\""), (.normal, ascii "ProxyHandler"), (.startBlock, ascii "\x7b"),
    (.normal, ascii "host"), (.normal, ascii "\"h\""), (.statementEnd, ascii ";")]

theorem proxyStart_run : ∃ st, turns (.initial .fresh) (proxyStart ++ [(.normal, ascii "port")]) = .ok (.goOn st) :=
  ⟨_, rfl⟩

theorem proxyStart_awaited :
    (expectsAfter (proxyStart ++ [(.normal, ascii "port")])).awaited = some .proxyPort := by decide

/-- the theorem at a port -/
theorem proxy_port_alike_number :
    ∃ st, turns (.initial .fresh) (proxyStart ++ [(.normal, ascii "port")]) = .ok (.goOn st) ∧
      PortAlike st (ascii "8080") := by
  obtain ⟨st, hrun⟩ := proxyStart_run
  exact ⟨st, hrun, (proxy_port_alike_iff hrun proxyStart_awaited _).2 ⟨8080, by decide, by decide⟩⟩

/-- the number that an address begins with is taken for the port -/
theorem proxy_port_address :
    ∃ st, turns (.initial .fresh) (proxyStart ++ [(.normal, ascii "port")]) = .ok (.goOn st) ∧
      serverPort (ascii "127.0.0.1:80") = some 80 ∧
      (∃ st', turns st [(.normal, ascii "127.0.0.1:80"), (.statementEnd, [SEMI])] = .ok (.goOn st') ∧
        st'.config.proxyLocations = st.config.proxyLocations.insert st.location (st.storeProxyLocationToken, 127)) ∧
      ¬ PortAlike st (ascii "127.0.0.1:80") := by
  obtain ⟨st, hrun⟩ := proxyStart_run
  have hflags := turns_expects hrun
  have hlast := turns_last_normal hrun
  refine ⟨st, hrun, by decide,
    turns_proxyPort hflags proxyStart_awaited hlast (by decide) (by decide), fun halike => ?_⟩
  obtain ⟨n, hserver, hnumber⟩ := (portAlike_iff hflags proxyStart_awaited hlast).1 halike
  have hport : serverPort (ascii "127.0.0.1:80") = some 80 := by decide
  have hfirst : stoi (ascii "127.0.0.1:80") = some 127 := by decide
  rw [hport] at hserver
  rw [hfirst, ← hserver] at hnumber
  exact absurd (Option.some.inj hnumber) (by decide)

end BlogServer.Config
