/-
The order of the fields in a location block.

A field of a block is read with what is expected where it stands, so its order is immaterial where that makes no
difference (`Steady`), whatever is expected from before the block and whatever stands between its fields. A blog expects
its fields from its name on, and each is entered into a table of its own. A proxy expects its port only after its host:
before that, `port` is the port of the server. So in a block of plain fields, with nothing expected from before it, the
fields of a blog may stand in any order exactly when fields of a name agree, while a host and a port of a proxy may not
change places (`field_order_iff`).

What plain fields do is `readFields`, on what is expected and on the draft, and the rest of the text sees nothing else
of them (`parse_block`).

- `OrderFree.steady`: enough for any order.
- `OrderImmaterial.blog_free`, `OrderImmaterial.proxy_apart`, `OrderImmaterial.proxy_ports`: needed for any order.
- `steady_credentials`: the credentials of a blog, whatever is still expected.
- `field_order_proxy`: a host and a port, in both orders.
-/
import BlogServer.Config.BlockPieces
import BlogServer.Config.ProxyPort
import BlogServer.Config.RoundTrip

namespace BlogServer.Config

open BlogServer.Byte BlogServer.Decimal

/-! ## Blocks -/

/-- the handlers whose blocks have several fields -/
inductive Kind where
  | proxy
  | blog
deriving DecidableEq, Repr

namespace Kind

def handler : Kind → Bytes
  | proxy => ascii "ProxyHandler"
  | blog => ascii "BlogHandler"

/-- what is expected at the start of the block -/
def expects : Kind → Expects
  | proxy => { handlerType := true, proxyHost := true }
  | blog => { handlerType := true, blogInfo := true }

/-- `location … Handler {` -/
def head (k : Kind) (location : Bytes) : List Token :=
  [(.normal, ascii "location"), (.normal, location), (.normal, k.handler), (.startBlock, [LBRACE])]

end Kind

/-- a field as it is written, no part of which opens a location or names a handler, and whose value is no keyword -/
structure PlainField where
  text : Bytes
  name : Bytes
  value : Bytes
  reads : ReadsAs text [(.normal, name), (.normal, value), (.statementEnd, [SEMI])]
  name_plain : name ≠ ascii "location" ∧ name ∉ handlerNames
  value_plain : value ∉ keywords ∧ value ∉ handlerNames

namespace PlainField

theorem value_ne_nil (f : PlainField) : f.value ≠ [] := (f.reads []).word_ne_nil (.normal, f.value) (by simp) rfl

def piece (f : PlainField) : Piece :=
  ⟨f.text, [(.normal, f.name), (.normal, f.value), (.statementEnd, [SEMI])], f.reads, fun _ => rfl⟩

end PlainField

/-! ## Reading fields -/

namespace Expects

/-- between two fields nothing is awaited; a static root is none of the fields -/
structure Settled (e : Expects) : Prop where
  awaited : e.awaited = none
  staticRoot : e.staticRoot = false

/-- what is expected after a field -/
def field (e : Expects) (f : PlainField) : Expects := (e.keyword f.name).receive

/-- what a field enters -/
def enterField (e : Expects) (d : Draft) (f : PlainField) : Draft := (e.keyword f.name).enter d f.value

variable {e : Expects} {f : PlainField}

/-- the name asks for no location and for no root -/
theorem Settled.keyword_awaited (h : e.Settled) (f : PlainField) :
    (e.keyword f.name).awaited ≠ some .location ∧ (e.keyword f.name).awaited ≠ some .root := by
  rcases e.keyword_asks f.name with hsame | ⟨a, hasks, hlocation, hroot, -⟩
  · rw [hsame, h.awaited]
    exact ⟨nofun, nofun⟩
  · rw [hasks]
    constructor
    · intro ha
      exact f.name_plain.1 (hlocation (Option.some.inj ha))
    · intro ha
      have hstatic := hroot (Option.some.inj ha)
      rw [h.staticRoot] at hstatic
      cases hstatic

theorem Settled.field_eq (h : e.Settled) (f : PlainField) : (e.keyword f.name).read f.value = e.field f := by
  obtain ⟨hlocation, hroot⟩ := h.keyword_awaited f
  have hremainder : (e.keyword f.name).remainder f.value = f.value := if_neg hroot
  have hnone : (e.keyword f.name).receive.awaited = none :=
    (e.keyword f.name).receive_awaited.resolve_right fun hboth => hlocation hboth.2
  have hplace : (e.keyword f.name).receive.place = (e.keyword f.name).receive := if_neg (by rw [hnone]; decide)
  rw [read, hremainder, name_other f.value_plain.2, hplace, keyword_other f.value_plain.1, field]

theorem Settled.field (h : e.Settled) (f : PlainField) : (e.field f).Settled := by
  obtain ⟨hlocation, hroot⟩ := h.keyword_awaited f
  refine ⟨(e.keyword f.name).receive_awaited.resolve_right fun hboth => hlocation hboth.2, ?_⟩
  have hkeyword : (e.keyword f.name).staticRoot = false := by
    rcases e.keyword_asks f.name with hsame | ⟨a, hasks, -⟩
    · rw [hsame, h.staticRoot]
    · rw [hasks]
      exact h.staticRoot
  unfold Expects.field receive
  split
  · exact hkeyword
  · rfl
  · exact hkeyword
  · exact hkeyword
  · exact hkeyword

end Expects

section Fields

variable {st : ParseState} {e : Expects} {s : BlockGrammar.State} {depth : ℕ} {d : Draft}

/-- **One field**: it is read when its value is supplied. -/
theorem PlainField.read (f : PlainField) (hsettled : e.Settled) (d : Draft) :
    f.piece.read (e, d) =
      if (e.keyword f.name).Supplied f.value then some (e.field f, e.enterField d f) else none := by
  obtain ⟨hlocation, -⟩ := hsettled.keyword_awaited f
  have hname := f.name_plain.2
  have hfirst : e.next (.normal, f.name) = e.keyword f.name :=
    (if_neg TokenType.noConfusion).trans (Expects.read_unawaited hsettled.awaited hname)
  have hsecond : (e.keyword f.name).next (.normal, f.value) = e.field f :=
    (if_neg TokenType.noConfusion).trans (hsettled.field_eq f)
  have hafter := (hsettled.field f).awaited
  have hthird : (e.field f).next (.statementEnd, [SEMI]) = e.field f := by
    have hread := Expects.read_unawaited hafter (show [SEMI] ∉ handlerNames by decide)
    rw [Expects.keyword_other (by decide)] at hread
    exact (if_neg TokenType.noConfusion).trans hread
  show readTokens [(.normal, f.name), (.normal, f.value), (.statementEnd, [SEMI])] (e, d) = _
  simp only [readTokens, hfirst, hsecond, hthird, Expects.supplied_of_unawaited hsettled.awaited,
    Expects.supplied_of_unawaited hafter, Expects.write_of_unawaited hsettled.awaited hname,
    Expects.write_of_unawaited hafter (show [SEMI] ∉ handlerNames by decide),
    Expects.write_enter hlocation fun _ => f.value_plain.2, if_true]
  rfl

/-- what a block's fields come to: `none` where a value is not supplied -/
def readFields (e : Expects) (d : Draft) : List PlainField → Option (Expects × Draft)
  | [] => some (e, d)
  | f :: fields =>
    if (e.keyword f.name).Supplied f.value then readFields (e.field f) (e.enterField d f) fields else none

theorem readFields_cons {e' : Expects} {f : PlainField} (hkeyword : e.keyword f.name = e')
    (hsupplied : e'.Supplied f.value) (d : Draft) (fields : List PlainField) :
    readFields e d (f :: fields) = readFields e'.receive (e'.enter d f.value) fields := by
  subst hkeyword
  exact if_pos hsupplied

theorem readFields_append (e : Expects) (d : Draft) (fields fields' : List PlainField) :
    readFields e d (fields ++ fields') = (readFields e d fields).bind fun r => readFields r.1 r.2 fields' := by
  induction fields generalizing e d with
  | nil => rfl
  | cons f fields ih =>
    rw [List.cons_append, readFields, readFields]
    split_ifs
    · exact ih _ _
    · rfl

/-- **The fields of a block**, as pieces of it. -/
theorem run_fields (hsettled : e.Settled) (fields : List PlainField) (d : Draft) :
    Reorder.run Piece.read (fields.map fun f => f.piece) (e, d) = readFields e d fields := by
  induction fields generalizing e d with
  | nil => rfl
  | cons f fields ih =>
    rw [List.map_cons, Reorder.run, List.foldlM_cons, f.read hsettled, readFields]
    split_ifs
    · exact ih (hsettled.field f) _
    · rfl

/-! ### The block around them -/

/-- what is expected after a location, which may be called like a keyword -/
theorem read_location (location : Bytes) :
    (({} : Expects).read (ascii "location")).read location = { handlerType := true } ∨
      (({} : Expects).read (ascii "location")).read location = { handlerType := true, awaited := some .serverPort } ∨
      (({} : Expects).read (ascii "location")).read location = { handlerType := true, awaited := some .location } := by
  have hread : (({} : Expects).read (ascii "location")).read location =
      ({ handlerType := true } : Expects).keyword location := rfl
  rw [hread]
  unfold Expects.keyword
  simp only [Bool.false_eq_true, false_and, if_false]
  split_ifs
  · exact Or.inr (Or.inl rfl)
  · exact Or.inr (Or.inr rfl)
  · exact Or.inl rfl

theorem read_handler (k : Kind) (location : Bytes) :
    ((({} : Expects).read (ascii "location")).read location).read k.handler = k.expects := by
  rcases read_location location with heq | heq | heq <;> rw [heq] <;> cases k <;> decide

/-- after the head of a block -/
theorem head_expects (k : Kind) (location : Bytes) : (k.head location).foldl Expects.next {} = k.expects := by
  have hword : ∀ (e : Expects) (token : Bytes), e.next (.normal, token) = e.read token :=
    fun e token => if_neg TokenType.noConfusion
  rw [Kind.head, List.foldl_cons, List.foldl_cons, List.foldl_cons, List.foldl_cons, hword, hword, hword,
    read_handler]
  cases k <;> decide

/-- **The head of a block**, where nothing is expected before it. -/
theorem turns_head (h : Shows st {} s d) (k : Kind) {location : Bytes} (hne : location ≠ []) :
    ∃ st' d', turns st (k.head location) = .ok (.goOn st') ∧ Shows st' k.expects ⟨false, s.depth + 1⟩ d' ∧
      d'.tables = d.tables := by
  have hlocation : (({} : Expects).read (ascii "location")).Supplied location := hne
  have hkeyword : ({} : Expects).Supplied (ascii "location") := trivial
  obtain ⟨st₁, hstep₁, h₁⟩ := h.word hkeyword
  obtain ⟨st₂, hstep₂, h₂⟩ := h₁.word hlocation
  have hnamed : ((({} : Expects).read (ascii "location")).read location).Supplied k.handler := by
    rcases read_location location with heq | heq | heq <;> rw [heq] <;> cases k <;> decide
  obtain ⟨st₃, hstep₃, h₃⟩ := h₂.word hnamed
  rw [read_handler] at h₃
  have hopen := h₃.step (t := (.startBlock, [LBRACE])) (show ¬ TokenType.startBlock.Ends by decide)
    TokenType.noConfusion (by cases k <;> trivial)
  obtain ⟨st₄, hstep₄, h₄⟩ := hopen
  have hnext : k.expects.next (.startBlock, [LBRACE]) = k.expects := by cases k <;> decide
  rw [hnext] at h₄
  refine ⟨st₄, _, ?_, h₄, ?_⟩
  · rw [Kind.head, turns_cons (t := (.normal, ascii "location")) hstep₁, turns_cons (t := (.normal, location)) hstep₂,
      turns_cons (t := (.normal, k.handler)) hstep₃, turns_cons (t := (.startBlock, [LBRACE])) hstep₄, turns]
  · have hquiet : k.expects.awaited = none := by cases k <;> rfl
    have hwritten : ∀ d : Draft,
        (((({} : Expects).read (ascii "location")).read location).write d k.handler).tables = d.tables := by
      intro d
      rcases read_location location with heq | heq | heq <;> rw [heq] <;> cases k <;> rfl
    rw [Expects.write_of_unawaited hquiet (by decide), hwritten]
    rfl

end Fields

/-! ## The fields of a blog -/

section Blog

variable {d : Draft}

/-- the table that a field is entered into -/
def BlogField.table : BlogField → NginxConfig → HashMap Bytes
  | .host => NginxConfig.blogIps
  | .port => NginxConfig.blogPorts
  | .username => NginxConfig.blogUsernames
  | .password => NginxConfig.blogPasswords

/-- a field of the block by its name -/
def blogField? (name : Bytes) : Option BlogField :=
  if name = ascii "host" then some .host
  else if name = ascii "port" then some .port
  else if name = ascii "password" then some .password
  else if name = ascii "username" then some .username
  else none

theorem blogField?_eq_some {name : Bytes} {b : BlogField} : blogField? name = some b ↔ name = b.keyword := by
  constructor
  · intro h
    unfold blogField? at h
    split_ifs at h with hname hname hname hname <;> cases h <;> exact hname
  · intro h
    rw [h]
    cases b <;> rfl

/-- the value that a field asks for -/
def BlogField.awaited : BlogField → Awaited
  | .host => .blogIp
  | .port => .blogPort
  | .username => .blogUsername
  | .password => .blogPassword

theorem blog_keyword (f : PlainField) :
    Kind.blog.expects.keyword f.name =
      { Kind.blog.expects with awaited := (blogField? f.name).map BlogField.awaited } := by
  have hlocation := f.name_plain.1
  unfold Expects.keyword blogField? Kind.expects
  simp only [hlocation, Bool.false_eq_true, Bool.true_eq_false, false_and, true_and, and_false, if_false]
  split_ifs <;> rfl

theorem blog_field (f : PlainField) : Kind.blog.expects.field f = Kind.blog.expects := by
  rw [Expects.field, blog_keyword]
  cases blogField? f.name with
  | none => rfl
  | some b => cases b <;> rfl

theorem blog_enterField (d : Draft) (f : PlainField) :
    Kind.blog.expects.enterField d f =
      match blogField? f.name with
      | none => d
      | some b => { d with tables := b.enter d.location (stripped f.value) d.tables } := by
  rw [Expects.enterField, blog_keyword]
  cases blogField? f.name with
  | none => rfl
  | some b => cases b <;> rfl

/-- nothing but the tables changes -/
theorem blog_calm (d : Draft) (f : PlainField) :
    Kind.blog.expects.enterField d f = { d with tables := (Kind.blog.expects.enterField d f).tables } := by
  rw [blog_enterField]
  cases blogField? f.name <;> rfl

/-- every value of a blog is supplied -/
theorem blog_supplied (f : PlainField) : (Kind.blog.expects.keyword f.name).Supplied f.value := by
  rw [blog_keyword]
  cases blogField? f.name with
  | none => trivial
  | some b => cases b <;> exact f.value_ne_nil

theorem readFields_blog (d : Draft) (fields : List PlainField) :
    readFields Kind.blog.expects d fields =
      some (Kind.blog.expects, fields.foldl Kind.blog.expects.enterField d) := by
  induction fields generalizing d with
  | nil => rfl
  | cons f fields ih =>
    rw [readFields, if_pos (blog_supplied f), blog_field, ih, List.foldl_cons]

/-- fields that agree are entered in any order -/
theorem blog_comm {f g : PlainField}
    (h : ∀ b : BlogField, f.name = b.keyword → g.name = b.keyword → stripped f.value = stripped g.value) (d : Draft) :
    Kind.blog.expects.enterField (Kind.blog.expects.enterField d f) g =
      Kind.blog.expects.enterField (Kind.blog.expects.enterField d g) f := by
  rw [blog_enterField, blog_enterField, blog_enterField d g, blog_enterField]
  cases hf : blogField? f.name with
  | none => rfl
  | some b =>
    cases hg : blogField? g.name with
    | none => rfl
    | some b' =>
      by_cases hsame : b = b'
      · subst hsame
        simp only
        rw [h b (blogField?_eq_some.1 hf) (blogField?_eq_some.1 hg)]
      · cases b <;> cases b' <;> first | rfl | exact absurd rfl hsame

theorem blog_location (d : Draft) (fields : List PlainField) :
    (fields.foldl Kind.blog.expects.enterField d).location = d.location := by
  induction fields generalizing d with
  | nil => rfl
  | cons f fields ih =>
    rw [List.foldl_cons, ih, blog_enterField]
    cases blogField? f.name <;> rfl

/-- the last of the fields of a name is the one that is found -/
theorem blog_last (d : Draft) (fields : List PlainField) {f : PlainField} {b : BlogField} (hname : f.name = b.keyword) :
    (b.table ((fields ++ [f]).foldl Kind.blog.expects.enterField d).tables).lookup d.location =
      some (stripped f.value) := by
  rw [List.foldl_append, List.foldl_cons, List.foldl_nil, blog_enterField, blogField?_eq_some.2 hname,
    ← blog_location d fields]
  cases b <;> exact AList.lookup_insert _

end Blog

/-! ## The fields of a proxy -/

section Proxy

variable {d : Draft}

/-- after the host only ports are read -/
def afterHost : Expects := { proxyPort := true }

/-- before the host, `port` is the port of the server -/
theorem proxy_keyword (f : PlainField) :
    (f.name = ascii "port" ∧
        Kind.proxy.expects.keyword f.name = { Kind.proxy.expects with awaited := some .serverPort }) ∨
      (f.name = ascii "host" ∧
        Kind.proxy.expects.keyword f.name = { Kind.proxy.expects with awaited := some .proxyHost }) ∨
      f.name ≠ ascii "port" ∧ f.name ≠ ascii "host" ∧ Kind.proxy.expects.keyword f.name = Kind.proxy.expects := by
  have hlocation := f.name_plain.1
  unfold Expects.keyword Kind.expects
  simp only [hlocation, Bool.false_eq_true, false_and, true_and, and_true, if_false]
  split_ifs with hport hhost
  · exact Or.inl ⟨hport, rfl⟩
  · exact Or.inr (Or.inl ⟨hhost, rfl⟩)
  · exact Or.inr (Or.inr ⟨hport, hhost, rfl⟩)

theorem afterHost_keyword (f : PlainField) :
    (f.name = ascii "port" ∧ afterHost.keyword f.name = { afterHost with awaited := some .proxyPort }) ∨
      f.name ≠ ascii "port" ∧ afterHost.keyword f.name = afterHost := by
  have hlocation := f.name_plain.1
  unfold Expects.keyword afterHost
  simp only [hlocation, Bool.true_eq_false, Bool.false_eq_true, false_and, true_and, and_false, if_false]
  split_ifs with hport
  · exact Or.inl ⟨hport, rfl⟩
  · exact Or.inr ⟨hport, rfl⟩

/-- with no port among them, nothing of the fields is entered -/
theorem readFields_hosts {fields : List PlainField} (h : ∀ f ∈ fields, f.name ≠ ascii "port") (d : Draft) :
    (∃ d', readFields afterHost d fields = some (afterHost, d') ∧ d'.location = d.location ∧ d'.tables = d.tables) ∧
      ∃ e' d', readFields Kind.proxy.expects d fields = some (e', d') ∧ d'.location = d.location ∧
        d'.tables = d.tables := by
  induction fields generalizing d with
  | nil => exact ⟨⟨d, rfl, rfl, rfl⟩, _, d, rfl, rfl, rfl⟩
  | cons f fields ih =>
    have hport := h f List.mem_cons_self
    have hrest := ih fun g hg => h g (List.mem_cons_of_mem f hg)
    constructor
    · have hkeyword := ((afterHost_keyword f).resolve_left fun hboth => hport hboth.1).2
      rw [readFields_cons hkeyword trivial]
      exact (hrest d).1
    · rcases (proxy_keyword f).resolve_left fun hboth => hport hboth.1 with ⟨-, hkeyword⟩ | ⟨-, -, hkeyword⟩
      · rw [readFields_cons hkeyword f.value_ne_nil]
        obtain ⟨d', hread, hsame⟩ := (hrest { d with host := stripped f.value }).1
        exact ⟨_, d', hread, hsame⟩
      · rw [readFields_cons hkeyword trivial]
        exact (hrest d).2

/-- a field of a block without a host: a port is the port of the server -/
def enterPort (d : Draft) (f : PlainField) : Draft :=
  if f.name = ascii "port" then { d with tables := setConfigPortNumberFromToken f.value d.tables } else d

/-- with no host among them, the ports are those of the server -/
theorem readFields_ports {fields : List PlainField} (h : ∀ f ∈ fields, f.name ≠ ascii "host") (d : Draft) :
    readFields Kind.proxy.expects d fields = some (Kind.proxy.expects, fields.foldl enterPort d) := by
  induction fields generalizing d with
  | nil => rfl
  | cons f fields ih =>
    have hhost := h f List.mem_cons_self
    have hrest := ih fun g hg => h g (List.mem_cons_of_mem f hg)
    rw [List.foldl_cons]
    rcases proxy_keyword f with ⟨hport, hkeyword⟩ | ⟨hname, -⟩ | ⟨hport, -, hkeyword⟩
    · rw [readFields_cons hkeyword trivial, enterPort, if_pos hport]
      exact hrest _
    · exact absurd hname hhost
    · rw [readFields_cons hkeyword trivial, enterPort, if_neg hport]
      exact hrest d

/-- the ports of the server leave every table as it is -/
theorem enterPort_fields (fields : List PlainField) (d : Draft) :
    (fields.foldl enterPort d).location = d.location ∧
      (fields.foldl enterPort d).tables.proxyLocations = d.tables.proxyLocations := by
  induction fields generalizing d with
  | nil => exact ⟨rfl, rfl⟩
  | cons f fields ih =>
    have hone : (enterPort d f).location = d.location ∧
        (enterPort d f).tables.proxyLocations = d.tables.proxyLocations := by
      unfold enterPort
      split_ifs
      · refine ⟨rfl, ?_⟩
        rw [setConfigPortNumberFromToken_eq]
        cases serverPort f.value <;> rfl
      · exact ⟨rfl, rfl⟩
    rw [List.foldl_cons, (ih _).1, (ih _).2]
    exact hone

/-- the ports of a block that are ports of the server are all the same -/
def SamePorts (fields : List PlainField) : Prop :=
  ∀ f ∈ fields, ∀ g ∈ fields, f.name = ascii "port" → g.name = ascii "port" →
    ∀ m n, serverPort f.value = some m → serverPort g.value = some n → m = n

theorem enterPort_comm {fields : List PlainField} (h : SamePorts fields) {f g : PlainField} (hf : f ∈ fields)
    (hg : g ∈ fields) (d : Draft) : enterPort (enterPort d f) g = enterPort (enterPort d g) f := by
  unfold enterPort
  by_cases hfport : f.name = ascii "port"
  · by_cases hgport : g.name = ascii "port"
    · simp only [if_pos hfport, if_pos hgport, setConfigPortNumberFromToken_eq]
      cases hm : serverPort f.value with
      | none => rfl
      | some m =>
        cases hn : serverPort g.value with
        | none => rfl
        | some n => rw [h f hf g hg hfport hgport m n hm hn]
    · simp only [if_neg hgport]
  · simp only [if_neg hfport]

/-- the last port of the server is the one that stays -/
theorem enterPort_last (d : Draft) (fields : List PlainField) {f : PlainField} (hname : f.name = ascii "port") {n : ℤ}
    (hn : serverPort f.value = some n) : ((fields ++ [f]).foldl enterPort d).tables.portNumber = n := by
  rw [List.foldl_append, List.foldl_cons, List.foldl_nil, enterPort, if_pos hname, setConfigPortNumberFromToken_eq, hn]

/-- after a host, a location that has an entry keeps one -/
theorem readFields_afterHost {fields : List PlainField} {d : Draft} {r : Expects × Draft}
    (h : readFields afterHost d fields = some r) {location : Bytes} (hentered : location ∈ d.tables.proxyLocations) :
    location ∈ r.2.tables.proxyLocations := by
  induction fields generalizing d with
  | nil =>
    rw [← Option.some.inj h]
    exact hentered
  | cons f fields ih =>
    rcases afterHost_keyword f with ⟨-, hkeyword⟩ | ⟨-, hkeyword⟩
    · by_cases hsupplied : ({ afterHost with awaited := some .proxyPort } : Expects).Supplied f.value
      · rw [readFields_cons hkeyword hsupplied] at h
        exact ih h (AList.mem_insert _ |>.2 (Or.inr hentered))
      · rw [readFields, hkeyword, if_neg hsupplied] at h
        cases h
    · rw [readFields_cons hkeyword trivial] at h
      exact ih h hentered

/-- a host and a port that are read in this order make an entry, if the fields are read at all -/
theorem readFields_hostPort {host port : PlainField} (hhost : host.name = ascii "host")
    (hport : port.name = ascii "port") {fields : List PlainField} {d : Draft} {r : Expects × Draft}
    (h : readFields Kind.proxy.expects d (host :: port :: fields) = some r) :
    d.location ∈ r.2.tables.proxyLocations := by
  have hkeyword : Kind.proxy.expects.keyword host.name = { Kind.proxy.expects with awaited := some .proxyHost } := by
    rw [hhost]
    rfl
  have hkeyword' : afterHost.keyword port.name = { afterHost with awaited := some .proxyPort } := by
    rw [hport]
    rfl
  rw [readFields_cons hkeyword host.value_ne_nil] at h
  by_cases hsupplied : ({ afterHost with awaited := some .proxyPort } : Expects).Supplied port.value
  · have hread : readFields afterHost { d with host := stripped host.value } (port :: fields) = some r := h
    rw [readFields_cons hkeyword' hsupplied] at hread
    exact readFields_afterHost hread (AList.mem_insert _ |>.2 (Or.inl rfl))
  · have hread : readFields afterHost { d with host := stripped host.value } (port :: fields) = some r := h
    rw [readFields, hkeyword', if_neg hsupplied] at hread
    cases hread

/-- and with the ports first they make none -/
theorem readFields_portsFirst {ports others : List PlainField} (hports : ∀ f ∈ ports, f.name ≠ ascii "host")
    (hothers : ∀ f ∈ others, f.name ≠ ascii "port") (d : Draft) :
    ∃ r, readFields Kind.proxy.expects d (ports ++ others) = some r ∧
      r.2.tables.proxyLocations = d.tables.proxyLocations := by
  obtain ⟨e', d', hread, -, htables⟩ := (readFields_hosts hothers (ports.foldl enterPort d)).2
  refine ⟨(e', d'), ?_, ?_⟩
  · rw [readFields_append, readFields_ports hports]
    exact hread
  · simp only
    rw [htables, (enterPort_fields ports d).2]

end Proxy

/-! ## The order of the fields -/

def fieldsText (fields : List PlainField) : Bytes := fields.flatMap fun f => f.text

/-- the fields as statements of any block -/
def statements (fields : List PlainField) : List Piece := fields.map PlainField.piece

theorem fieldsText_eq (fields : List PlainField) : fieldsText fields = body [] (statements fields) := by
  rw [body, Reorder.weave_nil, statements, List.flatMap_map]
  rfl

/-- plain fields may stand in any order, wherever nothing else is expected: whatever is parsed before and after the
block, the same is reported -/
def OrderImmaterial (k : Kind) (fields : List PlainField) : Prop :=
  ∀ (config : NginxConfig) (before head close after location : Bytes) (us : List Token) (fields' : List PlainField),
    ReadsAs before us → expectsAfter us = {} → ReadsAs head (k.head location) → ReadsAs close [(.endBlock, [RBRACE])] →
      fields'.Perm fields →
        reportedIf (parse config (before ++ (head ++ (fieldsText fields' ++ (close ++ after))))) =
          reportedIf (parse config (before ++ (head ++ (fieldsText fields ++ (close ++ after)))))

/-- fields of a name agree; a proxy has no port, or no host and one port for the server -/
def OrderFree : Kind → List PlainField → Prop
  | .blog, fields =>
    ∀ f ∈ fields, ∀ g ∈ fields, ∀ b : BlogField, f.name = b.keyword → g.name = b.keyword →
      stripped f.value = stripped g.value
  | .proxy, fields =>
    (∀ f ∈ fields, f.name ≠ ascii "port") ∨ (∀ f ∈ fields, f.name ≠ ascii "host") ∧ SamePorts fields

section Blocks

variable {config : NginxConfig} {st : ParseState} {k : Kind} {before head close location : Bytes}
  {us : List Token} {fields : List PlainField}

theorem settled_expects (k : Kind) : k.expects.Settled := by cases k <;> exact ⟨rfl, rfl⟩

/-- the text up to the first field -/
theorem head_inside (hbefore : ReadsAs before us) (hrun : turns (.initial config) us = .ok (.goOn st))
    (hclear : expectsAfter us = {}) (hhead : ReadsAs head (k.head location)) :
    expectsAfter (us ++ k.head location) = k.expects ∧
      BlockGrammar.run BlockGrammar.start (symbols (us ++ k.head location)) = some ⟨false, st.brackets + 1⟩ ∧
      ∃ st₀, turns (.initial config) (us ++ k.head location) = .ok (.goOn st₀) ∧
        st₀.config.tables = st.config.tables := by
  have hnot : ∀ t ∈ us, t.1 ≠ .start := fun t ht => ((hbefore []).not_ends t ht).2
  have hcounter := turns_counter (nested_initial config) hnot hrun
  have hshows : Shows st {} st.counter st.draft :=
    ⟨(turns_expects hrun).trans (congrArg Expects.flags hclear), hcounter.2, rfl, rfl⟩
  have hne : location ≠ [] := (hhead []).word_ne_nil (.normal, location) (by simp [Kind.head]) rfl
  obtain ⟨st₀, d, hstart, h₀, htables⟩ := turns_head hshows k hne
  refine ⟨?_, ?_, st₀, by rw [turns_append hrun, hstart], (congrArg Draft.tables h₀.draft).trans htables⟩
  · rw [expectsAfter, List.foldl_append, ← expectsAfter, hclear, head_expects]
  · have hstarted : BlockGrammar.run BlockGrammar.start (symbols us) = some st.counter := hcounter.1
    rw [symbols_append, BlockGrammar.run_append, hstarted]
    rfl

/-- what is parsed of a text with a block in it, up to the block's end -/
theorem parse_block (after : Bytes) (hbefore : ReadsAs before us) (hrun : turns (.initial config) us = .ok (.goOn st))
    (hclear : expectsAfter us = {}) (hhead : ReadsAs head (k.head location))
    (hclose : ReadsAs close [(.endBlock, [RBRACE])]) :
    ∃ d : Draft, d.tables = st.config.tables ∧ ∀ fields : List PlainField,
      match readFields k.expects d fields with
      | none => ∃ fault, parse config (before ++ (head ++ (fieldsText fields ++ (close ++ after)))) = .error fault
      | some r => ∃ st', Shows st' {} ⟨false, st.brackets⟩ r.2 ∧
          parse config (before ++ (head ++ (fieldsText fields ++ (close ++ after)))) =
            returned (turns st' (tokens after)) := by
  obtain ⟨hexpects, hinside, st₀, hstart, htables⟩ := head_inside hbefore hrun hclear hhead
  refine ⟨st₀.draft, htables, fun fields => ?_⟩
  have hread := parse_body (hbefore.append hhead) hstart hinside hclose (statements fields) after
  have htext : (statements fields).flatMap Piece.text = fieldsText fields := by
    rw [fieldsText_eq, body, Reorder.weave_nil]
  rw [hexpects, statements, run_fields (settled_expects k), ← statements, htext, List.append_assoc] at hread
  exact hread

/-! ### Enough for any order -/

/-- plain fields that leave what is expected, and are entered in any order -/
theorem steady_plain {e : Expects} (enter : Draft → PlainField → Draft)
    (hread : ∀ f ∈ fields, ∀ d, f.piece.read (e, d) = some (e, enter d f))
    (hcalm : ∀ d f, enter d f = { d with tables := (enter d f).tables })
    (hcomm : ∀ f ∈ fields, ∀ g ∈ fields, ∀ d, enter (enter d f) g = enter (enter d g) f) (d : Draft) :
    Steady (e, d) [] (statements fields) := by
  have hpiece : ∀ p, p ∈ statements fields ∨ p ∈ ([] : List Piece) → ∃ f ∈ fields, f.piece = p :=
    fun p hp => List.mem_map.1 (hp.resolve_right List.not_mem_nil)
  have hboth : ∀ f ∈ fields, ∀ g ∈ fields, ∀ d,
      Reorder.run Piece.read [f.piece, g.piece] (e, d) = some (e, enter (enter d f) g) := by
    intro f hf g hg d
    show (f.piece.read (e, d)).bind (fun r => (g.piece.read r).bind some) = _
    rw [hread f hf, Option.bind_some, hread g hg, Option.bind_some]
  refine Steady.of_calm (fun p hp d => ?_) (fun s hs p hp d => ?_) d
  · obtain ⟨f, hf, rfl⟩ := hpiece p hp
    exact ⟨(enter d f).tables, by rw [hread f hf, ← hcalm]⟩
  · obtain ⟨f, hf, rfl⟩ := List.mem_map.1 hs
    obtain ⟨g, hg, rfl⟩ := hpiece p hp
    rw [hboth f hf g hg, hboth g hg f hf, hcomm f hf g hg]

/-- a field whose name asks for a value that is supplied -/
theorem PlainField.read_supplied {e e' : Expects} (f : PlainField) (hsettled : e.Settled)
    (hkeyword : e.keyword f.name = e') (hsupplied : e'.Supplied f.value) (d : Draft) :
    f.piece.read (e, d) = some (e'.receive, e'.enter d f.value) := by
  subst hkeyword
  rw [f.read hsettled, if_pos hsupplied]
  rfl

/-- without a port, no field of a proxy is entered, before the host or after it -/
theorem read_portless {f : PlainField} (hport : f.name ≠ ascii "port") {e : Expects}
    (he : e = Kind.proxy.expects ∨ e = afterHost) (d : Draft) :
    ∃ e' d', f.piece.read (e, d) = some (e', d') ∧ (e' = Kind.proxy.expects ∨ e' = afterHost) ∧
      d'.tables = d.tables := by
  rcases he with rfl | rfl
  · have hsettled := settled_expects .proxy
    rcases (proxy_keyword f).resolve_left fun hboth => hport hboth.1 with ⟨-, hkeyword⟩ | ⟨-, -, hkeyword⟩
    · exact ⟨_, _, f.read_supplied hsettled hkeyword f.value_ne_nil d, Or.inr rfl, rfl⟩
    · exact ⟨_, _, f.read_supplied hsettled hkeyword trivial d, Or.inl rfl, rfl⟩
  · have hkeyword := ((afterHost_keyword f).resolve_left fun hboth => hport hboth.1).2
    exact ⟨_, _, f.read_supplied ⟨rfl, rfl⟩ hkeyword trivial d, Or.inr rfl, rfl⟩

/-- the credentials of a blog, whatever is still expected from before it -/
theorem steady_credentials {e : Expects} (hsettled : e.Settled) (hblog : e.blogInfo = true)
    (hnames : ∀ f ∈ fields, f.name = ascii "username" ∨ f.name = ascii "password") (hagree : OrderFree .blog fields)
    (d : Draft) : Steady (e, d) [] (statements fields) := by
  refine steady_plain Kind.blog.expects.enterField (fun f hf d => ?_) blog_calm
    (fun f hf g hg d => blog_comm (hagree f hf g hg) d) d
  have hnone : { e with awaited := none } = e := by rw [← hsettled.awaited]
  have hport : ascii "username" ≠ ascii "port" ∧ ascii "password" ≠ ascii "port" := by decide
  have hlocation : ascii "username" ≠ ascii "location" ∧ ascii "password" ≠ ascii "location" := by decide
  have hroot : ascii "username" ≠ ascii "root" ∧ ascii "password" ≠ ascii "root" := by decide
  have hhost : ascii "username" ≠ ascii "host" ∧ ascii "password" ≠ ascii "host" := by decide
  have hother : ascii "username" ≠ ascii "password" := by decide
  rw [blog_enterField]
  rcases hnames f hf with hname | hname
  · have hkeyword : e.keyword f.name = { e with awaited := some .blogUsername } := by
      rw [hname, Expects.keyword]
      simp only [hport, hlocation, hroot, hhost, hother, hblog, false_and, and_false, and_true, if_false, if_true]
    rw [f.read_supplied hsettled hkeyword f.value_ne_nil, (blogField?_eq_some (b := .username)).2 hname]
    exact congrArg (fun e => some (e, _)) hnone
  · have hkeyword : e.keyword f.name = { e with awaited := some .blogPassword } := by
      rw [hname, Expects.keyword]
      simp only [hport, hlocation, hroot, hhost, hblog, false_and, and_false, and_true, if_false, if_true]
    rw [f.read_supplied hsettled hkeyword f.value_ne_nil, (blogField?_eq_some (b := .password)).2 hname]
    exact congrArg (fun e => some (e, _)) hnone

/-- **Enough for any order.** -/
theorem OrderFree.steady (h : OrderFree k fields) (d : Draft) : Steady (k.expects, d) [] (statements fields) := by
  cases k with
  | blog =>
    refine steady_plain Kind.blog.expects.enterField (fun f _ d => ?_) (fun d f => ?_)
      (fun f hf g hg d => blog_comm (h f hf g hg) d) d
    · rw [f.read (settled_expects .blog), if_pos (blog_supplied f), blog_field]
    · exact blog_calm d f
  | proxy =>
    rcases h with hport | ⟨hhost, hsame⟩
    · refine ⟨fun _ tables => tables, Reorder.Independent.of_invariant
        (I := fun r => r.1 = Kind.proxy.expects ∨ r.1 = afterHost) (Or.inl rfl) ?_ (fun _ _ _ _ _ => rfl)
        fun _ _ _ _ _ => rfl⟩
      rintro p hp ⟨e, d'⟩ he
      obtain ⟨f, hf, rfl⟩ := List.mem_map.1 (hp.resolve_right List.not_mem_nil)
      obtain ⟨e'', d'', hgoes, he'', htables⟩ := read_portless (hport f hf) he d'
      exact ⟨(e'', d''), hgoes, he'', htables⟩
    · refine steady_plain enterPort (fun f hf d => ?_) (fun d f => ?_)
        (fun f hf g hg d => enterPort_comm hsame hf hg d) d
      · unfold enterPort
        rcases proxy_keyword f with ⟨hport, hkeyword⟩ | ⟨hname, -⟩ | ⟨hport, -, hkeyword⟩
        · rw [f.read_supplied (settled_expects .proxy) hkeyword trivial, if_pos hport]
          rfl
        · exact absurd hname (hhost f hf)
        · rw [f.read_supplied (settled_expects .proxy) hkeyword trivial, if_neg hport]
          rfl
      · unfold enterPort
        split_ifs <;> rfl

/-- pieces that are read alike may stand in any order -/
theorem OrderImmaterial.of_alike
    (h : ∀ d, Steady (k.expects, d) [] (statements fields) ∨ Unread (k.expects, d) [] (statements fields)) :
    OrderImmaterial k fields := by
  intro config before head close after location us fields' hbefore hclear hhead hclose hperm
  by_cases hgoes : ∃ st, turns (.initial config) us = .ok (.goOn st)
  · obtain ⟨st, hrun⟩ := hgoes
    obtain ⟨hexpects, hinside, -⟩ := head_inside hbefore hrun hclear hhead
    have hopen : InsideBlock (us ++ k.head location) :=
      fun s hs => ⟨st.brackets, Option.some.inj (hs.symm.trans hinside)⟩
    have hfree : ∀ st', turns (.initial config) (us ++ k.head location) = .ok (.goOn st') →
        Steady (expectsAfter (us ++ k.head location), st'.draft) [] (statements fields) ∨
          Unread (expectsAfter (us ++ k.head location), st'.draft) [] (statements fields) := by
      intro st' _
      rw [hexpects]
      exact h st'.draft
    have hstatements : (statements fields').Perm (statements fields) := hperm.map PlainField.piece
    have hsame := parse_reordered (hbefore.append hhead) hopen hclose hfree hstatements after
    rw [← fieldsText_eq, ← fieldsText_eq, List.append_assoc, List.append_assoc] at hsame
    exact hsame
  · rw [parse_eq_turns, parse_eq_turns, (hbefore _).tokens, (hbefore _).tokens, turns_ended hgoes, turns_ended hgoes]

/-! ### A block by itself -/

/-- the head of a block for the location `/` -/
def headText : Kind → Bytes
  | .proxy => ascii "location \"/\" ProxyHandler \x7b"
  | .blog => ascii "location \"/\" BlogHandler \x7b"

theorem headText_reads (k : Kind) : ReadsAs (headText k) (k.head (ascii "\"/\"")) := by
  intro v
  cases k with
  | proxy =>
    apply Between.token (w := ascii " \"/\" ProxyHandler \x7b") rfl (by decide)
    apply Between.token (w := ascii " ProxyHandler \x7b") rfl (by decide)
    apply Between.token (w := ascii " \x7b") rfl (by decide)
    apply Between.token (w := []) rfl (by decide)
    exact readsAs_nil v
  | blog =>
    apply Between.token (w := ascii " \"/\" BlogHandler \x7b") rfl (by decide)
    apply Between.token (w := ascii " BlogHandler \x7b") rfl (by decide)
    apply Between.token (w := ascii " \x7b") rfl (by decide)
    apply Between.token (w := []) rfl (by decide)
    exact readsAs_nil v

theorem closeText_reads : ReadsAs [RBRACE] [(.endBlock, [RBRACE])] := by
  intro v
  apply Between.token (w := []) rfl (by decide)
  exact readsAs_nil v

/-- where the order is immaterial, the fields read to the same tables in every order -/
theorem OrderImmaterial.read (h : OrderImmaterial k fields) :
    ∃ d : Draft, d.tables = .fresh ∧ ∀ fields', fields'.Perm fields →
      (readFields k.expects d fields').map (fun r => r.2.tables) =
        (readFields k.expects d fields).map fun r => r.2.tables := by
  obtain ⟨d, htables, hparse⟩ := parse_block [] readsAs_nil
    (show turns (.initial .fresh) [] = .ok (.goOn (.initial .fresh)) from rfl) rfl (headText_reads k) closeText_reads
  refine ⟨d, htables, fun fields' hperm => ?_⟩
  have hsame := h .fresh [] (headText k) [RBRACE] [] (ascii "\"/\"") [] fields' readsAs_nil rfl (headText_reads k)
    closeText_reads hperm
  -- what is reported of the block shows the tables, if its fields are read
  have hreported : ∀ fields : List PlainField,
      reportedIf (parse .fresh ([] ++ (headText k ++ (fieldsText fields ++ ([RBRACE] ++ []))))) =
        (readFields k.expects d fields).map fun r => (true, r.2.tables) := by
    intro fields
    have hfields := hparse fields
    cases hread : readFields k.expects d fields with
    | none =>
      rw [hread] at hfields
      obtain ⟨fault, hfault⟩ := hfields
      rw [hfault]
      rfl
    | some r =>
      rw [hread] at hfields
      obtain ⟨st', h', hparsed⟩ := hfields
      obtain ⟨st₁, hvalues, hnil⟩ := values_nil h'.flags trivial
      have hend : tokens [] = [(.eof, [])] := by decide
      have htables' : st₁.config.tables = r.2.tables := hnil.trans (congrArg Draft.tables h'.draft)
      rw [reportedIf, hparsed, hend, reported_eof h'.nested hvalues, h'.counter, htables']
      rfl
  have hboth := (hreported fields').symm.trans (hsame.trans (hreported fields))
  have hsnd := congrArg (Option.map Prod.snd) hboth
  rw [Option.map_map, Option.map_map] at hsnd
  exact hsnd

/-- a field can be put last -/
theorem exists_last {f : PlainField} (h : f ∈ fields) : ∃ rest, (rest ++ [f]).Perm fields := by
  obtain ⟨l₁, l₂, rfl⟩ := List.append_of_mem h
  refine ⟨l₁ ++ l₂, ?_⟩
  rw [List.append_assoc]
  exact List.Perm.append_left l₁ List.perm_append_comm

/-- two fields that differ can be put first -/
theorem exists_first {f g : PlainField} (hf : f ∈ fields) (hg : g ∈ fields) (hne : f ≠ g) :
    ∃ rest, (f :: g :: rest).Perm fields := by
  obtain ⟨l₁, l₂, rfl⟩ := List.append_of_mem hf
  have hg' : g ∈ l₁ ++ l₂ := by
    rcases List.mem_append.1 hg with hg | hg
    · exact List.mem_append_left _ hg
    · exact List.mem_append_right _ ((List.mem_cons.1 hg).resolve_left hne.symm)
  obtain ⟨l₃, l₄, heq⟩ := List.append_of_mem hg'
  refine ⟨l₃ ++ l₄, ?_⟩
  have hmiddle : (g :: (l₃ ++ l₄)).Perm (l₁ ++ l₂) := by
    rw [heq]
    exact List.perm_middle.symm
  exact (hmiddle.cons f).trans List.perm_middle.symm

/-- **Needed for any order**, in a block of a blog: the last of two fields of a name is the one that is entered. -/
theorem OrderImmaterial.blog_free (h : OrderImmaterial .blog fields) : OrderFree .blog fields := by
  obtain ⟨d, -, hread⟩ := h.read
  intro f hf g hg b hfname hgname
  obtain ⟨rest, hrest⟩ := exists_last hf
  obtain ⟨rest', hrest'⟩ := exists_last hg
  have hsame := (hread _ hrest).trans (hread _ hrest').symm
  rw [readFields_blog, readFields_blog] at hsame
  have hfound := congrArg (fun tables => (b.table tables).lookup d.location) (Option.some.inj hsame)
  simp only [blog_last d rest hfname, blog_last d rest' hgname, Option.some.injEq] at hfound
  exact hfound

/-- a host and a port are read in one order as an entry, and in the other as the port of the server -/
theorem OrderImmaterial.proxy_apart (h : OrderImmaterial .proxy fields) {host port : PlainField} (hhost : host ∈ fields)
    (hport : port ∈ fields) (hhostname : host.name = ascii "host") (hportname : port.name = ascii "port") : False := by
  obtain ⟨d, hfresh, hread⟩ := h.read
  have hne : host ≠ port := by
    rintro rfl
    rw [hhostname] at hportname
    exact absurd hportname (by decide)
  obtain ⟨rest, hrest⟩ := exists_first hhost hport hne
  set isPort : PlainField → Bool := fun f => decide (f.name = ascii "port") with hisPort
  have hports : ∀ f ∈ fields.filter isPort, f.name ≠ ascii "host" := by
    intro f hf hname
    have hfport : f.name = ascii "port" := of_decide_eq_true (List.mem_filter.1 hf).2
    rw [hname] at hfport
    exact absurd hfport (by decide)
  have hothers : ∀ f ∈ fields.filter fun f => !isPort f, f.name ≠ ascii "port" := by
    intro f hf hname
    have hnot := (List.mem_filter.1 hf).2
    rw [hisPort] at hnot
    simp [hname] at hnot
  obtain ⟨r, hportsFirst, hnone⟩ := readFields_portsFirst hports hothers d
  have hsame := (hread _ hrest).trans (hread _ (List.filter_append_perm isPort fields)).symm
  rw [hportsFirst] at hsame
  obtain ⟨r', hhostFirst, htables⟩ := Option.map_eq_some_iff.1 hsame
  have hentered := readFields_hostPort hhostname hportname hhostFirst
  rw [htables, hnone, hfresh] at hentered
  exact absurd hentered (AList.notMem_empty _)

/-- two ports without a host: the last one is the port of the server -/
theorem OrderImmaterial.proxy_ports (h : OrderImmaterial .proxy fields) (hhost : ∀ f ∈ fields, f.name ≠ ascii "host") :
    SamePorts fields := by
  obtain ⟨d, -, hread⟩ := h.read
  intro f hf g hg hfname hgname m n hm hn
  obtain ⟨rest, hrest⟩ := exists_last hf
  obtain ⟨rest', hrest'⟩ := exists_last hg
  have hsame := (hread _ hrest).trans (hread _ hrest').symm
  rw [readFields_ports fun x hx => hhost x (hrest.mem_iff.1 hx),
    readFields_ports fun x hx => hhost x (hrest'.mem_iff.1 hx)] at hsame
  have hport := congrArg NginxConfig.portNumber (Option.some.inj hsame)
  simp only [enterPort_last d rest hfname hm, enterPort_last d rest' hgname hn] at hport
  exact hport

theorem OrderImmaterial.free (h : OrderImmaterial k fields) : OrderFree k fields := by
  cases k with
  | blog => exact h.blog_free
  | proxy =>
    by_cases hport : ∃ port ∈ fields, port.name = ascii "port"
    · obtain ⟨port, hport, hportname⟩ := hport
      have hhost : ∀ f ∈ fields, f.name ≠ ascii "host" :=
        fun host hhost hhostname => h.proxy_apart hhost hport hhostname hportname
      exact Or.inr ⟨hhost, h.proxy_ports hhost⟩
    · exact Or.inl fun f hf hname => hport ⟨f, hf, hname⟩

end Blocks

/-- **When the order of the fields is immaterial.** In every text, for the statements of a block with whatever stands
between them and whatever is expected from before: when in every order each is read and makes its own change to the
tables, and the changes commute, or when in no order every value is supplied. In a block of plain fields, with nothing
expected from before, only then: in that of a blog, when fields of a name agree; in that of a proxy, when there is no
port in it, or no host and one port for the server. -/
theorem field_order_iff {config : NginxConfig} {before close : Bytes} {us : List Token} (hbefore : ReadsAs before us)
    (hinside : InsideBlock us) (hclose : ReadsAs close [(.endBlock, [RBRACE])]) (gaps pieces : List Piece)
    (after : Bytes) :
    ((∀ st, turns (.initial config) us = .ok (.goOn st) →
        Steady (expectsAfter us, st.draft) gaps pieces ∨ Unread (expectsAfter us, st.draft) gaps pieces) →
      ∀ pieces' : List Piece, pieces'.Perm pieces →
        reportedIf (parse config (before ++ (body gaps pieces' ++ (close ++ after)))) =
          reportedIf (parse config (before ++ (body gaps pieces ++ (close ++ after))))) ∧
      ∀ (k : Kind) (fields : List PlainField),
        (OrderImmaterial k fields ↔
          ∀ d, Steady (k.expects, d) [] (statements fields) ∨ Unread (k.expects, d) [] (statements fields)) ∧
        (OrderImmaterial k fields ↔ OrderFree k fields) := by
  constructor
  · intro hfree pieces' hperm
    exact parse_reordered hbefore hinside hclose hfree hperm after
  · intro k fields
    have hfree : OrderImmaterial k fields → OrderFree k fields := OrderImmaterial.free
    exact ⟨⟨fun h d => Or.inl ((hfree h).steady d), .of_alike⟩, hfree, fun h => .of_alike fun d => Or.inl (h.steady d)⟩

/-- the head of a blog's block, where the host of a proxy is still expected -/
def pendingText : Bytes := ascii "location \"/a\" ProxyHandler; location \"/b\" BlogHandler \x7b"

theorem pendingText_reads : ReadsAs pendingText
    [(.normal, ascii "location"), (.normal, ascii "\"/a\""), (.normal, ascii "ProxyHandler"), (.statementEnd, [SEMI]),
      (.normal, ascii "location"), (.normal, ascii "\"/b\""), (.normal, ascii "BlogHandler"),
      (.startBlock, [LBRACE])] := by
  intro v
  apply Between.token (w := ascii " \"/a\" ProxyHandler; location \"/b\" BlogHandler \x7b") rfl (by decide)
  apply Between.token (w := ascii " ProxyHandler; location \"/b\" BlogHandler \x7b") rfl (by decide)
  apply Between.token (w := ascii "; location \"/b\" BlogHandler \x7b") rfl (by decide)
  apply Between.token (w := ascii " location \"/b\" BlogHandler \x7b") rfl (by decide)
  apply Between.token (w := ascii " \"/b\" BlogHandler \x7b") rfl (by decide)
  apply Between.token (w := ascii " BlogHandler \x7b") rfl (by decide)
  apply Between.token (w := ascii " \x7b") rfl (by decide)
  apply Between.token (w := []) rfl (by decide)
  exact readsAs_nil v

/-- `username "u";` -/
def usernameField : PlainField where
  text := ascii " username \"u\";"
  name := ascii "username"
  value := ascii "\"u\""
  reads := by
    intro v
    apply Between.token (w := ascii " \"u\";") rfl (by decide)
    apply Between.token (w := ascii ";") rfl (by decide)
    apply Between.token (w := []) rfl (by decide)
    exact readsAs_nil v
  name_plain := by decide
  value_plain := by decide

/-- `password "p";` -/
def passwordField : PlainField where
  text := ascii " password \"p\";"
  name := ascii "password"
  value := ascii "\"p\""
  reads := by
    intro v
    apply Between.token (w := ascii " \"p\";") rfl (by decide)
    apply Between.token (w := ascii ";") rfl (by decide)
    apply Between.token (w := []) rfl (by decide)
    exact readsAs_nil v
  name_plain := by decide
  value_plain := by decide

/-- they are two fields of a blog -/
theorem credentials_free : OrderFree .blog [usernameField, passwordField] := by
  have hother : usernameField.name ≠ passwordField.name := by decide
  intro f hf g hg b hfname hgname
  simp only [List.mem_cons, List.not_mem_nil, or_false] at hf hg
  rcases hf with rfl | rfl <;> rcases hg with rfl | rfl
  · rfl
  · exact absurd (hfname.trans hgname.symm) hother
  · exact absurd (hgname.trans hfname.symm) hother
  · rfl

/-- the credentials in both orders -/
theorem field_order_iff_pending :
    reportedIf (parse .fresh (pendingText ++ (fieldsText [passwordField, usernameField] ++ ([RBRACE] ++ [])))) =
      reportedIf (parse .fresh (pendingText ++ (fieldsText [usernameField, passwordField] ++ ([RBRACE] ++ [])))) := by
  have hnames : ∀ f ∈ [usernameField, passwordField], f.name = ascii "username" ∨ f.name = ascii "password" := by
    intro f hf
    simp only [List.mem_cons, List.not_mem_nil, or_false] at hf
    rcases hf with rfl | rfl
    · exact Or.inl rfl
    · exact Or.inr rfl
  rw [fieldsText_eq, fieldsText_eq]
  refine (field_order_iff pendingText_reads (fun s hs => ⟨0, ?_⟩) closeText_reads [] _ []).1
    (fun st _ => Or.inl (steady_credentials ⟨rfl, rfl⟩ rfl hnames credentials_free st.draft)) _ (List.Perm.swap ..)
  exact (Option.some.inj hs).symm

/-- there a host is that of the proxy, and the port behind it is no port; in the other order it is that of the blog -/
example :
    reportedIf (parse .fresh (ascii
        "location \"/a\" ProxyHandler; location \"/b\" BlogHandler \x7b host \"h\"; port \"1\";\x7d")) = none ∧
      (reportedIf (parse .fresh (ascii
        "location \"/a\" ProxyHandler; location \"/b\" BlogHandler \x7b port \"1\"; host \"h\";\x7d"))).map Prod.fst =
        some true :=
  ⟨Option.isNone_iff_eq_none.1 (by decide +kernel), by decide +kernel⟩

/-- `host "h";` -/
def hostField : PlainField where
  text := ascii " host \"h\";"
  name := ascii "host"
  value := ascii "\"h\""
  reads := by
    intro v
    apply Between.token (w := ascii " \"h\";") rfl (by decide)
    apply Between.token (w := ascii ";") rfl (by decide)
    apply Between.token (w := []) rfl (by decide)
    exact readsAs_nil v
  name_plain := by decide
  value_plain := by decide

/-- `port 80;` -/
def portField : PlainField where
  text := ascii " port 80;"
  name := ascii "port"
  value := ascii "80"
  reads := by
    intro v
    apply Between.token (w := ascii " 80;") rfl (by decide)
    apply Between.token (w := ascii ";") rfl (by decide)
    apply Between.token (w := []) rfl (by decide)
    exact readsAs_nil v
  name_plain := by decide
  value_plain := by decide

/-- the two orders of the fields of a proxy: an entry, and the port of the server -/
theorem field_order_proxy :
    (∃ host port : PlainField, host.text = ascii " host \"h\";" ∧ port.text = ascii " port 80;" ∧
        ¬ OrderImmaterial .proxy [host, port]) ∧
      (∃ config, parse .fresh (ascii "location \"/\" ProxyHandler \x7b host \"h\"; port 80;\x7d") = .ok (true, config) ∧
        config.proxyLocations.lookup (ascii "/") = some (ascii "h", 80) ∧ config.portNumber = -1) ∧
      ∃ config, parse .fresh (ascii "location \"/\" ProxyHandler \x7b port 80; host \"h\";\x7d") = .ok (true, config) ∧
        config.proxyLocations.lookup (ascii "/") = none ∧ config.portNumber = 80 := by
  refine ⟨⟨hostField, portField, rfl, rfl, fun h => ?_⟩, exists_of_run (by decide +kernel),
    exists_of_run (by decide +kernel)⟩
  exact h.proxy_apart (List.mem_cons_self ..) (List.mem_cons_of_mem _ (List.mem_cons_self ..)) rfl rfl

end BlogServer.Config
