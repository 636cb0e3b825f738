/-
Which parsed configurations can be served.

`Parse` enters each field of a blog location in a table of its own, when it reads the field, and accepts a block that
leaves one out. `Init` of the blog handler looks up all four for each location that has a host. The other handlers look
up only the table that their location comes from.

- `constructed_iff`: the constructor of `request_dispatcher` ends without an exception exactly when every blog location
  with a host has the other three fields.
- `declared_constructed`: it does for every configuration whose blocks are complete.
- `constructed_hostOnly`: a block with nothing but a host is accepted.
-/
import BlogServer.Config.RoundTrip
import BlogServer.Dispatch.Registration

namespace BlogServer.Dispatch

open BlogServer.Byte BlogServer.Config BlogServer.Posts

/-! ## The lookups of `Init` -/

theorem lookup_ne_none_iff {V : Type} {table : HashMap V} {location : Bytes} :
    table.lookup location ≠ none ↔ location ∈ table := by
  rw [Option.ne_none_iff_isSome, AList.lookup_isSome]

/-- every blog location with a host has a user name, a password and a port -/
def BlogComplete (config : NginxConfig) : Prop :=
  ∀ location ∈ config.blogIps,
    location ∈ config.blogUsernames ∧ location ∈ config.blogPasswords ∧ location ∈ config.blogPorts

instance : DecidablePred BlogComplete := fun config =>
  inferInstanceAs (Decidable (∀ location ∈ config.blogIps.keys, _ ∧ _ ∧ _))

theorem blogInit_ne_none_iff {config : NginxConfig} {location : Bytes} :
    BlogUploadHandler.init location config ≠ none ↔
      (location ∈ config.blogUsernames ∧ location ∈ config.blogPasswords ∧ location ∈ config.blogPorts) ∧
        location ∈ config.blogIps := by
  simp only [← lookup_ne_none_iff, BlogUploadHandler.init]
  cases config.blogUsernames.lookup location with
  | none => simp
  | some username =>
    cases config.blogPasswords.lookup location with
    | none => simp
    | some password =>
      cases config.blogIps.lookup location with
      | none => simp
      | some host => cases config.blogPorts.lookup location <;> simp

/-- a handler can be made for each location of its type, if it is not a blog -/
theorem init_of_location {config : NginxConfig} {location : Bytes} (k : HandlerType) (hblog : k ≠ .blog)
    (hlocation : location ∈ k.locations config) : (handlersOf config k.name).1 location ≠ none := by
  have hmap : ∀ {V : Type} (table : HashMap V) (make : V → Handler), location ∈ table.keys →
      (table.lookup location).map make ≠ none := by
    intro V table make hmem
    rw [Ne, Option.map_eq_none_iff]
    exact lookup_ne_none_iff.2 (AList.mem_keys.2 hmem)
  cases k with
  | echo => exact Option.some_ne_none _
  | static =>
    change (StaticHandler.init location config).map Handler.static ≠ none
    rw [StaticHandler.init, Option.map_map]
    exact hmap _ _ hlocation
  | status => exact Option.some_ne_none _
  | proxy => exact hmap _ _ hlocation
  | redirect => exact hmap _ _ hlocation
  | health => exact Option.some_ne_none _
  | uploadForm => exact Option.some_ne_none _
  | blog => exact absurd rfl hblog

/-- the constructor ends without an exception exactly when the recorded types have complete locations -/
theorem init_ne_none_iff_blogComplete {config : NginxConfig}
    (hrecorded : ∀ k : HandlerType, k.locations config ≠ [] → k.name ∈ config.handlerTypes) :
    Dispatcher.init config ≠ none ↔ BlogComplete config := by
  have hblog : ∀ location, (handlersOf config HandlerType.blog.name).1 location ≠ none ↔
      BlogUploadHandler.init location config ≠ none := by
    intro location
    change (BlogUploadHandler.init location config).map _ ≠ none ↔ _
    rw [Ne, Option.map_eq_none_iff]
  rw [init_ne_none_iff]
  constructor
  · intro h location hlocation
    have hkeys : location ∈ HandlerType.blog.locations config := AList.mem_keys.1 hlocation
    have hmade := h _ (hrecorded .blog (List.ne_nil_of_mem hkeys)) location (by rwa [handlersOf_name])
    exact (blogInit_ne_none_iff.1 ((hblog location).1 hmade)).1
  · intro h handlerType _ location hlocation
    obtain ⟨k, rfl⟩ := name_of_mem hlocation
    rw [handlersOf_name] at hlocation
    by_cases hk : k = .blog
    · rw [hk] at hlocation ⊢
      have hmem : location ∈ config.blogIps := AList.mem_keys.2 hlocation
      exact (hblog location).2 (blogInit_ne_none_iff.2 ⟨h location hmem, hmem⟩)
    · exact init_of_location k hk hlocation

/-! ## Parsed configurations -/

/-- **Which accepted texts can be served.** The constructor of `request_dispatcher` ends without an exception exactly
when every blog location with a host has a user name, a password and a port. -/
theorem constructed_iff {text : Bytes} {config : NginxConfig} (hparsed : ParsedAs text true config) :
    Dispatcher.init config ≠ none ↔ BlogComplete config :=
  init_ne_none_iff_blogComplete hparsed.recorded

/-- a block with all fields, in another order than `Init` reads them -/
abbrev completeText : Bytes :=
  ascii "location \"/blog\" BlogHandler \x7b port \"5432\"; host \"1.2.3.4\"; username \"u\"; password \"p\"; \x7d"

theorem constructed_iff_blog :
    ∃ config, parse .fresh completeText = .ok (true, config) ∧ Dispatcher.init config ≠ none := by
  have hrun : ∃ config, parse .fresh completeText = .ok (true, config) ∧ BlogComplete config :=
    exists_of_run (by decide +kernel)
  obtain ⟨config, hparse, hcomplete⟩ := hrun
  exact ⟨config, hparse, (constructed_iff (parsedAs_of_parse hparse)).2 hcomplete⟩

/-- a block with nothing but a host is accepted, and the constructor throws -/
theorem constructed_hostOnly :
    ∃ config,
      parse .fresh (ascii "location \"/blog\" BlogHandler \x7b host \"1.2.3.4\"; \x7d") = .ok (true, config) ∧
        (Dispatcher.init config).isNone = true :=
  exists_of_run (by decide +kernel)

/-- the tables that complete blocks enter -/
theorem declares_blogComplete {config : NginxConfig} {blocks : List Block} (h : Declares config blocks) :
    BlogComplete config := by
  have hfield : ∀ {table table' : HashMap Bytes} {f g : BlogField} {location : Bytes},
      Holds table (Servlet.blogField? f) blocks → Holds table' (Servlet.blogField? g) blocks →
        location ∈ table → location ∈ table' := by
    intro table table' f g location hf hg hmem
    obtain ⟨v, hv⟩ := Option.ne_none_iff_exists'.1 (lookup_ne_none_iff.2 hmem)
    obtain ⟨b, hb, hl, hentry⟩ := (hf location v).1 hv
    cases hservlet : b.servlet with
    | blog info =>
      have hother := (hg location (info.value g).1).2 ⟨b, hb, hl, by rw [hservlet]; rfl⟩
      exact lookup_ne_none_iff.1 (by rw [hother]; exact Option.some_ne_none _)
    | _ => rw [hservlet] at hentry; cases hentry
  intro location hmem
  exact ⟨hfield h.blogIp h.blogUsername hmem, hfield h.blogIp h.blogPassword hmem, hfield h.blogIp h.blogPort hmem⟩

/-- **A configuration whose blocks are complete can be served**, however its tokens are spaced. -/
theorem declared_constructed (file : ConfigFile) {text : Bytes} (htext : Spaced file.lexemes text) :
    ∃ config, parse .fresh text = .ok (true, config) ∧ Dispatcher.init config ≠ none := by
  obtain ⟨st, hparse, hreads⟩ := parse_file file htext
  have hcomplete := declares_blogComplete hreads.declares
  exact ⟨_, hparse, (init_ne_none_iff_blogComplete (tables_recorded hparse).2).2 hcomplete⟩

end BlogServer.Dispatch
