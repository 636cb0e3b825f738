/-
From the text of a configuration to the handlers that answer.

What `Parse` makes of declared blocks and what `get_handler` makes of a URI are put together, without the tables and the
map in between. A URI asks for the blocks that `AskedBy` says; the one that answers is of the type that `get_handler`
asks for first, and among static blocks it is the longest (`Serves`). Its handler has what the block declares
(`Declared`), whatever was asked before.

- `Serves.unique`: it is the only one, unless it is a proxy or a blog.
- `declared_served`: the answer to every URI, for every configuration that is written out.
-/
import BlogServer.Dispatch.ProxyLinks

namespace BlogServer.Config

/-! ## Blocks and their types -/

/-- the type that a block is registered as -/
def Servlet.type : Servlet → HandlerType
  | .echo => .echo
  | .status => .status
  | .health => .health
  | .uploadForm => .uploadForm
  | .static _ => .static
  | .redirect _ => .redirect
  | .proxy _ _ => .proxy
  | .blog _ => .blog

/-- the order in which `get_handler` asks for the types -/
def HandlerType.order : List HandlerType := [.echo, .static, .status, .redirect, .health, .uploadForm, .proxy, .blog]

/-- the place of a type in that order -/
def HandlerType.rank (k : HandlerType) : ℕ := order.idxOf k

theorem HandlerType.mem_order (k : HandlerType) : k ∈ order := by cases k <;> decide

theorem HandlerType.rank_injective : Function.Injective HandlerType.rank := fun k _ h =>
  (List.idxOf_inj k.mem_order).1 h

/-- the types before a type -/
theorem HandlerType.mem_of_rank_lt {before after : List HandlerType} {k k' : HandlerType}
    (horder : order = before ++ k :: after) (h : k'.rank < k.rank) : k' ∈ before := by
  by_contra hmem
  have hk : k.rank ≤ before.length := by
    rw [rank, horder, List.idxOf_append]
    split
    · exact (List.idxOf_lt_length_of_mem ‹_›).le
    · simp
  have hk' : before.length ≤ k'.rank := by
    rw [rank, horder, List.idxOf_append_of_notMem hmem]
    exact Nat.le_add_right _ _
  omega

/-- the keys of a table that the blocks of a type have entries in -/
theorem Holds.mem_keys {V : Type} {table : HashMap V} {entry : Servlet → Option V} {blocks : List Block} {k : HandlerType}
    (h : Holds table entry blocks) (hentry : ∀ s, (entry s).isSome = true ↔ s.type = k) (location : Bytes) :
    location ∈ table.keys ↔ ∃ b ∈ blocks, b.location.1 = location ∧ b.servlet.type = k := by
  rw [← AList.mem_keys, ← AList.lookup_isSome, Option.isSome_iff_exists]
  constructor
  · rintro ⟨v, hv⟩
    obtain ⟨b, hb, hl, hv⟩ := (h location v).1 hv
    exact ⟨b, hb, hl, (hentry _).1 (by rw [hv]; rfl)⟩
  · rintro ⟨b, hb, hl, htype⟩
    obtain ⟨v, hv⟩ := Option.isSome_iff_exists.1 ((hentry _).2 htype)
    exact ⟨v, (h location v).2 ⟨b, hb, hl, hv⟩⟩

/-- a set of the blocks of a type -/
theorem HoldsSet.mem {set : List Bytes} {kind : Servlet → Bool} {blocks : List Block} {k : HandlerType}
    (h : HoldsSet set kind blocks) (hkind : ∀ s, kind s = true ↔ s.type = k) (location : Bytes) :
    location ∈ set ↔ ∃ b ∈ blocks, b.location.1 = location ∧ b.servlet.type = k := by
  simp only [h location, hkind]

/-- the locations of a type are those of its blocks -/
theorem Declares.locations {config : NginxConfig} {blocks : List Block} (h : Declares config blocks) (k : HandlerType)
    (location : Bytes) :
    location ∈ k.locations config ↔ ∃ b ∈ blocks, b.location.1 = location ∧ b.servlet.type = k := by
  cases k with
  | echo => exact h.echo.mem (fun s => by cases s <;> simp [Servlet.isEcho, Servlet.type]) location
  | status => exact h.status.mem (fun s => by cases s <;> simp [Servlet.isStatus, Servlet.type]) location
  | health => exact h.health.mem (fun s => by cases s <;> simp [Servlet.isHealth, Servlet.type]) location
  | uploadForm => exact h.uploadForm.mem (fun s => by cases s <;> simp [Servlet.isUploadForm, Servlet.type]) location
  | static => exact h.static.mem_keys (fun s => by cases s <;> simp [Servlet.root?, Servlet.type]) location
  | redirect => exact h.redirect.mem_keys (fun s => by cases s <;> simp [Servlet.redirectHost?, Servlet.type]) location
  | proxy => exact h.proxy.mem_keys (fun s => by cases s <;> simp [Servlet.proxyServer?, Servlet.type]) location
  | blog => exact h.blogIp.mem_keys (fun s => by cases s <;> simp [Servlet.blogField?, Servlet.type]) location

/-- blocks of one location are one block -/
theorem block_unique {blocks : List Block} (hdistinct : (blocks.map Block.location).Nodup) {b b' : Block}
    (hb : b ∈ blocks) (hb' : b' ∈ blocks) (h : b.location.1 = b'.location.1) : b = b' :=
  List.inj_on_of_nodup_map hdistinct hb hb' (Subtype.ext h)

end BlogServer.Config

namespace BlogServer.Dispatch

open BlogServer.Byte BlogServer.Config BlogServer.Http BlogServer.Posts BlogServer.Proxy

/-! ## The block that answers -/

/-- a decoded URI asks for the block -/
def Asks (uri : Bytes) (b : Block) : Prop := AskedBy uri b.location.1 b.servlet.type

/-- the block answers a decoded URI: no block of an earlier type is asked for, nor a longer one if it is static -/
structure Serves (blocks : List Block) (uri : Bytes) (b : Block) : Prop where
  mem : b ∈ blocks
  asked : Asks uri b
  first : ∀ other ∈ blocks, Asks uri other → b.servlet.type.rank ≤ other.servlet.type.rank
  longest : b.servlet.type = .static → ∀ other ∈ blocks, other.servlet.type = .static → Asks uri other →
    other.location.1.length ≤ b.location.1.length

/-- the locations that a URI is under are of different lengths -/
theorem Under.eq_of_length {location other uri : Bytes} (h : Under location uri) (h' : Under other uri)
    (hlength : location.length = other.length) : location = other := by
  have hpre : ∀ {l : Bytes}, Under l uri → l <+: uri := fun hl =>
    hl.elim (fun heq => heq ▸ List.prefix_refl _) (List.prefix_append _ _).trans
  exact (List.prefix_of_prefix_length_le (hpre h) (hpre h') hlength.le).eq_of_length hlength

/-- **At most one block answers**, or all that may are proxies, or blogs. -/
theorem Serves.unique {blocks : List Block} (hdistinct : (blocks.map Block.location).Nodup) {uri : Bytes} {b b' : Block}
    (h : Serves blocks uri b) (h' : Serves blocks uri b') :
    b = b' ∨ b.servlet.type = b'.servlet.type ∧ (b.servlet.type = .proxy ∨ b.servlet.type = .blog) := by
  have htype : b.servlet.type = b'.servlet.type :=
    HandlerType.rank_injective (le_antisymm (h.first b' h'.mem h'.asked) (h'.first b h.mem h.asked))
  have hasked := h.asked
  have hasked' := h'.asked
  have hlongest := h.longest
  have hlongest' := h'.longest
  unfold Asks at hasked hasked'
  rw [← htype] at hasked' hlongest'
  cases hk : b.servlet.type with
  | proxy => exact Or.inr ⟨by rw [← htype, hk], Or.inl rfl⟩
  | blog => exact Or.inr ⟨by rw [← htype, hk], Or.inr rfl⟩
  | static =>
    rw [hk] at hasked hasked'
    have hlength : b.location.1.length = b'.location.1.length :=
      le_antisymm (hlongest' hk b h.mem hk h.asked) (hlongest hk b' h'.mem (by rw [← htype, hk]) h'.asked)
    exact Or.inl (block_unique hdistinct h.mem h'.mem (hasked.2.eq_of_length hasked'.2 hlength))
  | _ =>
    rw [hk] at hasked hasked'
    exact Or.inl (block_unique hdistinct h.mem h'.mem ((show uri = _ from hasked).symm.trans hasked'))

/-! ## What `get_handler` asks first -/

/-- what is found among the locations of a type -/
def located (config : NginxConfig) (uri : Bytes) : HandlerType → Option Bytes
  | .static =>
    if longestPrefixMatch config.staticLocations uri ≠ [] then some (longestPrefixMatch config.staticLocations uri)
    else none
  | .proxy => Dispatcher.prefixLocation config.proxyLocations.keys uri
  | .blog => Dispatcher.prefixLocation config.blogIps.keys uri
  | k => if uri ∈ k.locations config then some uri else none

theorem findSome?_ite {α β : Type} {f : α → Option β} {p : Prop} [Decidable p] {a : α} {b : β} {l : List α}
    (h : f a = if p then some b else none) : (a :: l).findSome? f = if p then some b else l.findSome? f := by
  rw [List.findSome?_cons, h]
  split_ifs <;> rfl

/-- the types are asked for in order -/
theorem chosen_eq (config : NginxConfig) (uri : Bytes) :
    chosen config uri = HandlerType.order.findSome? (located config uri) := by
  unfold chosen HandlerType.order
  simp only
  have hecho : located config uri .echo = if uri ∈ config.echoLocations then some uri else none := rfl
  have hstatic : located config uri .static = if _ then some _ else none := rfl
  have hstatus : located config uri .status = if uri ∈ config.statusLocations then some uri else none := rfl
  have hredirect : located config uri .redirect = if uri ∈ config.redirectLocations then some uri else none :=
    if_congr AList.mem_keys.symm rfl rfl
  have hhealth : located config uri .health = if uri ∈ config.healthLocations then some uri else none := rfl
  have hform : located config uri .uploadForm = if uri ∈ config.uploadFormLocations then some uri else none := rfl
  rw [findSome?_ite hecho, findSome?_ite hstatic, findSome?_ite hstatus, findSome?_ite hredirect, findSome?_ite hhealth,
    findSome?_ite hform]
  have hrest : [HandlerType.proxy, .blog].findSome? (located config uri) =
      (Dispatcher.prefixLocation config.proxyLocations.keys uri).or
        (Dispatcher.prefixLocation config.blogIps.keys uri) := by
    simp only [List.findSome?_cons, List.findSome?_nil, located]
    cases Dispatcher.prefixLocation config.proxyLocations.keys uri with
    | some location => rfl
    | none => cases Dispatcher.prefixLocation config.blogIps.keys uri <;> rfl
  rw [hrest]

/-- what is found is a location of the type that is asked for, and the longest if it is static -/
theorem located_some {config : NginxConfig} {uri location : Bytes} {k : HandlerType}
    (h : located config uri k = some location) :
    location ∈ k.locations config ∧ AskedBy uri location k ∧
      (k = .static → ∀ other ∈ config.staticLocations, Under other uri → other.length ≤ location.length) := by
  cases k with
  | static =>
    rw [located, Option.ite_none_right_eq_some] at h
    obtain ⟨hne, heq⟩ := h
    obtain rfl := Option.some.inj heq
    rcases longestPrefixMatch_spec config.staticLocations uri with ⟨hmem, hunder, hlongest⟩ | ⟨hnil, -⟩
    · exact ⟨AList.mem_keys.1 hmem, ⟨hne, hunder⟩, fun _ => hlongest⟩
    · exact absurd hnil hne
  | proxy => exact ⟨(prefixLocation_some h).1, (prefixLocation_some h).2, nofun⟩
  | blog => exact ⟨(prefixLocation_some h).1, (prefixLocation_some h).2, nofun⟩
  | _ =>
    obtain ⟨hmem, heq⟩ := Option.ite_none_right_eq_some.1 h
    obtain rfl := Option.some.inj heq
    exact ⟨hmem, rfl, nofun⟩

/-- nothing is found only where no location of the type is asked for -/
theorem located_none {config : NginxConfig} {uri location : Bytes} {k : HandlerType} (h : located config uri k = none)
    (hmem : location ∈ k.locations config) : ¬ AskedBy uri location k := by
  intro hasked
  cases k with
  | static =>
    rw [located, ite_eq_right_iff] at h
    by_cases hnil : longestPrefixMatch config.staticLocations uri = []
    · exact hasked.1 (longestPrefixMatch_nil hnil (AList.mem_keys.2 hmem) hasked.2)
    · cases h hnil
  | proxy => exact prefixLocation_none h location hmem hasked
  | blog => exact prefixLocation_none h location hmem hasked
  | _ =>
    obtain rfl : uri = location := hasked
    exact absurd ((if_pos hmem).symm.trans h) (Option.some_ne_none uri)

/-- **What is chosen** is of the first type that is asked for. -/
theorem chosen_first {config : NginxConfig} {uri location : Bytes} (h : chosen config uri = some location) :
    ∃ k : HandlerType, located config uri k = some location ∧
      ∀ (k' : HandlerType) (other : Bytes), other ∈ k'.locations config → AskedBy uri other k' → k.rank ≤ k'.rank := by
  rw [chosen_eq] at h
  obtain ⟨before, k, after, horder, hfound, hnone⟩ := List.findSome?_eq_some_iff.1 h
  refine ⟨k, hfound, fun k' other hmem hasked => ?_⟩
  by_contra hlt
  have hbefore := HandlerType.mem_of_rank_lt horder (Nat.lt_of_not_le hlt)
  exact located_none (hnone k' hbefore) hmem hasked

/-! ## The handler that a block declares -/

/-- the handler has what the block declares; a status handler, besides, what it has recorded -/
def Declared (b : Block) (handler : Handler) : Prop :=
  match b.servlet with
  | .echo => handler = .echo b.location.1
  | .static root => handler = .static ⟨b.location.1, root.1⟩
  | .status => ∃ status : StatusHandler, handler = .status status ∧ status.statusPath = b.location.1
  | .redirect host => handler = .redirect host.1
  | .health => handler = .health
  | .uploadForm => handler = .uploadForm
  | .proxy host port => handler = .proxy (.init b.location.1 (host.1, (port.1 : ℤ)))
  | .blog info =>
    handler = .blog ⟨b.location.1⟩ ⟨ascii "postgres", (info.value .username).1, (info.value .password).1,
      (info.value .host).1, (info.value .port).1⟩

/-- what `Init` finds in the tables is what the block of the location declares -/
theorem init_declared {config : NginxConfig} {blocks : List Block} (h : Declares config blocks) {b : Block}
    (hb : b ∈ blocks) {handler : Handler}
    (hinit : (handlersOf config b.servlet.type.name).1 b.location.1 = some handler) : Declared b handler := by
  obtain ⟨location, servlet⟩ := b
  unfold Declared
  cases servlet with
  | echo | health | uploadForm => exact (Option.some.inj hinit).symm
  | status => exact ⟨_, (Option.some.inj hinit).symm, rfl⟩
  | static root =>
    have hlookup := (h.static location.1 root.1).2 ⟨_, hb, rfl, rfl⟩
    have hmade : (StaticHandler.init location.1 config).map Handler.static = some handler := hinit
    rw [StaticHandler.init, hlookup] at hmade
    exact (Option.some.inj hmade).symm
  | redirect host =>
    have hlookup := (h.redirect location.1 host.1).2 ⟨_, hb, rfl, rfl⟩
    have hmade : (config.redirectLocations.lookup location.1).map Handler.redirect = some handler := hinit
    rw [hlookup] at hmade
    exact (Option.some.inj hmade).symm
  | proxy host port =>
    have hlookup := (h.proxy location.1 (host.1, (port.1 : ℤ))).2 ⟨_, hb, rfl, rfl⟩
    have hmade : (config.proxyLocations.lookup location.1).map (fun entry => Handler.proxy (.init location.1 entry)) =
        some handler := hinit
    rw [hlookup] at hmade
    exact (Option.some.inj hmade).symm
  | blog info =>
    have hhost := (h.blogIp location.1 (info.value .host).1).2 ⟨_, hb, rfl, rfl⟩
    have hport := (h.blogPort location.1 (info.value .port).1).2 ⟨_, hb, rfl, rfl⟩
    have husername := (h.blogUsername location.1 (info.value .username).1).2 ⟨_, hb, rfl, rfl⟩
    have hpassword := (h.blogPassword location.1 (info.value .password).1).2 ⟨_, hb, rfl, rfl⟩
    have hmade : (BlogUploadHandler.init location.1 config).map (fun made => Handler.blog made.1 made.2) =
        some handler := hinit
    rw [BlogUploadHandler.init, husername, hpassword, hhost, hport] at hmade
    exact (Option.some.inj hmade).symm

/-- the type that has a location is that of its block -/
theorem owner_declared {config : NginxConfig} {blocks : List Block} (hdeclares : Declares config blocks)
    (hdistinct : (blocks.map Block.location).Nodup)
    (hrecorded : ∀ k : HandlerType, k.locations config ≠ [] → k.name ∈ config.handlerTypes) {b : Block} (hb : b ∈ blocks) :
    owner config b.location.1 config.handlerTypes = some b.servlet.type.name := by
  have hmem := (hdeclares.locations b.servlet.type b.location.1).2 ⟨b, hb, rfl, rfl⟩
  obtain ⟨handlerType, howner⟩ := Option.ne_none_iff_exists'.1
    (owner_ne_none (hrecorded _ (List.ne_nil_of_mem hmem)) (by rwa [handlersOf_name]))
  obtain ⟨k, rfl⟩ := name_of_mem (owner_some howner).2
  have hk := (owner_some howner).2
  rw [handlersOf_name] at hk
  obtain ⟨b', hb', hl, htype⟩ := (hdeclares.locations k b.location.1).1 hk
  rw [howner, ← htype, block_unique hdistinct hb' hb hl]

/-- **What stands under a location** is the handler that its block declares. -/
theorem Made.declared {config : NginxConfig} {blocks : List Block} (hdeclares : Declares config blocks)
    (hdistinct : (blocks.map Block.location).Nodup) {b : Block} (hb : b ∈ blocks) {handler : Handler}
    (h : Made config b.location.1 handler) : Declared b handler := by
  generalize hlocation : b.location.1 = location at h
  induction h with
  | init k howner hinit =>
    have hmem := (owner_some howner).2
    rw [handlersOf_name] at hmem
    obtain ⟨b', hb', hl, htype⟩ := (hdeclares.locations k location).1 hmem
    obtain rfl := block_unique hdistinct hb hb' (hlocation.trans hl.symm)
    rw [← htype, ← hlocation] at hinit
    exact init_declared hdeclares hb hinit
  | @record status h requestUri responseStatus ih =>
    unfold Declared at ih ⊢
    cases hservlet : b.servlet with
    | status =>
      rw [hservlet] at ih
      obtain ⟨status', heq, hpath⟩ := ih
      obtain rfl := Handler.status.inj heq
      exact ⟨_, rfl, hpath⟩
    | _ =>
      rw [hservlet] at ih
      cases ih

/-- the location that is chosen is that of a block that answers -/
theorem serves_of_chosen {config : NginxConfig} {blocks : List Block} (h : Declares config blocks) {uri location : Bytes}
    (hchosen : chosen config uri = some location) : ∃ b, Serves blocks uri b ∧ b.location.1 = location := by
  obtain ⟨k, hlocated, hfirst⟩ := chosen_first hchosen
  obtain ⟨hmem, hasked, hlongest⟩ := located_some hlocated
  obtain ⟨b, hb, rfl, rfl⟩ := (h.locations k location).1 hmem
  refine ⟨b, ⟨hb, hasked, fun other hother hasks => ?_, fun hstatic other hother htype hasks => ?_⟩, rfl⟩
  · exact hfirst _ _ ((h.locations _ _).2 ⟨other, hother, rfl, rfl⟩) hasks
  · have hkey := (h.locations .static _).2 ⟨other, hother, rfl, htype⟩
    unfold Asks at hasks
    rw [htype] at hasks
    exact hlongest hstatic _ (AList.mem_keys.2 hkey) hasks.2

/-- the handler that is to answer a decoded URI: that of a block that serves it, or the 404 handler without one -/
def DeclaredFor (blocks : List Block) (uri : Bytes) (handler : Handler) : Prop :=
  (∃ b, Serves blocks uri b ∧ Declared b handler) ∨ handler = .error404 ∧ ∀ b ∈ blocks, ¬ Asks uri b

/-- **What answers** is what is declared. -/
theorem Registered.getHandler_declared {config : NginxConfig} {d : Dispatcher} (h : Registered config d)
    {blocks : List Block} (hdeclares : Declares config blocks) (hdistinct : (blocks.map Block.location).Nodup)
    (uri : Bytes) :
    ∃ handler, d.getHandler uri = (some handler, d) ∧ DeclaredFor blocks (unescapeSpaces uri) handler := by
  obtain ⟨handler, hanswer, hmade⟩ := h.getHandler uri
  refine ⟨handler, hanswer, ?_⟩
  cases hchosen : chosen config (unescapeSpaces uri) with
  | none =>
    rw [hchosen] at hmade
    refine Or.inr ⟨hmade, fun b hb hasks => chosen_none hchosen b.location.1 ?_⟩
    exact ⟨b.servlet.type, (hdeclares.locations _ _).2 ⟨b, hb, rfl, rfl⟩, hasks⟩
  | some location =>
    rw [hchosen] at hmade
    obtain ⟨b, hserves, rfl⟩ := serves_of_chosen hdeclares hchosen
    exact Or.inl ⟨b, hserves, Made.declared hdeclares hdistinct hserves.mem hmade⟩

/-- what a configuration that is written out is parsed to -/
theorem parse_declares (file : ConfigFile) {text : Bytes} (htext : Spaced file.lexemes text) :
    ∃ config, parse .fresh text = .ok (true, config) ∧ Declares config file.blocks := by
  obtain ⟨st, hparse, hreads⟩ := parse_file file htext
  obtain ⟨h1, h2, h3, h4, h5, h6, h7, h8, h9, h10, h11⟩ := hreads.declares
  exact ⟨_, hparse, h1, h2, h3, h4, h5, h6, h7, h8, h9, h10, h11⟩

/-- **A configuration is served as it is declared.** However its tokens are spaced, its dispatcher can be made; and
whatever was asked before, every URI is answered by the handler of a block that serves it, with what the block declares,
or by the 404 handler where it asks for no block. That block is the only one, unless it is a proxy or a blog. -/
theorem declared_served (file : ConfigFile) {text : Bytes} (htext : Spaced file.lexemes text) :
    ∃ config, parse .fresh text = .ok (true, config) ∧ Dispatcher.init config ≠ none ∧
      (∀ d, Dispatcher.Reachable config d → ∀ uri, ∃ handler, (d.getHandler uri).1 = some handler ∧
        DeclaredFor file.blocks (unescapeSpaces uri) handler) ∧
      ∀ uri b b', Serves file.blocks uri b → Serves file.blocks uri b' →
        b = b' ∨ b.servlet.type = b'.servlet.type ∧ (b.servlet.type = .proxy ∨ b.servlet.type = .blog) := by
  obtain ⟨config, hparse, hdeclares⟩ := parse_declares file htext
  have hrecorded := (tables_recorded hparse).2
  refine ⟨config, hparse, (init_ne_none_iff_blogComplete hrecorded).2 (declares_blogComplete hdeclares),
    fun d hd uri => ?_, fun _ _ _ hserves hserves' => hserves.unique file.distinct hserves'⟩
  obtain ⟨handler, hanswer, hdeclared⟩ :=
    (registered_of_reachable hrecorded hd).getHandler_declared hdeclares file.distinct uri
  exact ⟨handler, by rw [hanswer], hdeclared⟩

/-- files under `/s`, and an echo at `/s/e` -/
def filesBlock : Block := ⟨⟨ascii "/s", by decide⟩, .static ⟨ascii "r", by decide⟩⟩

def echoBlock : Block := ⟨⟨ascii "/s/e", by decide⟩, .echo⟩

/-- the echo comes before the files -/
theorem declared_served_nested :
    ∃ config d, parse .fresh ((ConfigFile.lexemes ⟨[filesBlock], some 80, [echoBlock], by decide⟩).flatMap fun l =>
        l.text ++ [SP]) = .ok (true, config) ∧
      Dispatcher.init config = some d ∧
      (d.getHandler (ascii "/s/e")).1 = some (.echo (ascii "/s/e")) ∧
      (d.getHandler (ascii "/s/a%20b")).1 = some (.static ⟨ascii "/s", ascii "r"⟩) := by
  obtain ⟨config, hparse, hinit, hserved, -⟩ :=
    declared_served ⟨[filesBlock], some 80, [echoBlock], by decide⟩ (Spaced.single _)
  obtain ⟨d, hd⟩ := Option.ne_none_iff_exists'.1 hinit
  have hblocks : ∀ {b : Block}, b ∈ ConfigFile.blocks ⟨[filesBlock], some 80, [echoBlock], by decide⟩ →
      b = filesBlock ∨ b = echoBlock := fun hb => by simpa [ConfigFile.blocks] using hb
  refine ⟨config, d, hparse, hd, ?_, ?_⟩
  · have hecho : Asks (unescapeSpaces (ascii "/s/e")) echoBlock := by
      show unescapeSpaces (ascii "/s/e") = ascii "/s/e"
      decide
    obtain ⟨handler, hanswer, ⟨b, hserves, hdeclared⟩ | ⟨-, hnone⟩⟩ := hserved d (.init hd) (ascii "/s/e")
    · rcases hblocks hserves.mem with rfl | rfl
      · exact absurd (hserves.first echoBlock (by simp [ConfigFile.blocks]) hecho) (by decide)
      · rw [hanswer, show handler = .echo (ascii "/s/e") from hdeclared]
    · exact absurd hecho (hnone echoBlock (by simp [ConfigFile.blocks]))
  · have hfiles : Asks (unescapeSpaces (ascii "/s/a%20b")) filesBlock := by
      show ascii "/s" ≠ [] ∧ Under (ascii "/s") (unescapeSpaces (ascii "/s/a%20b"))
      decide
    obtain ⟨handler, hanswer, ⟨b, hserves, hdeclared⟩ | ⟨-, hnone⟩⟩ := hserved d (.init hd) (ascii "/s/a%20b")
    · rcases hblocks hserves.mem with rfl | rfl
      · rw [hanswer, show handler = .static ⟨ascii "/s", ascii "r"⟩ from hdeclared]
      · exact absurd (show unescapeSpaces (ascii "/s/a%20b") = ascii "/s/e" from hserves.asked) (by decide)
    · exact absurd hfiles (hnone filesBlock (by simp [ConfigFile.blocks]))

end BlogServer.Dispatch
