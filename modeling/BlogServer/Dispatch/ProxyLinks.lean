/-
Following a link of a page that came through a proxy.

A proxy handler is returned for the URIs that begin with its location, `%20` decoded, and cuts the location from the URI
as it was sent. For a link it has rewritten itself, which begins with the location, the two agree. What it asks for
upstream is then the link behind the path of the configured host (`link_leads_back_iff`).

- `link_path`: with the host `h/path`, following `/a` asks for `/path/a`.
-/
import BlogServer.Dispatch.Serving
import BlogServer.Proxy.Links

namespace BlogServer.Dispatch

open BlogServer.Byte BlogServer.Config BlogServer.Http BlogServer.Proxy

/-! ## The proxy handler of a URI -/

/-- a proxy handler was made for its location, with the host and port that the location has -/
theorem Made.proxy {config : NginxConfig} {location : Bytes} {handler : ProxyHandler}
    (h : Made config location (.proxy handler)) :
    ∃ entry, config.proxyLocations.lookup location = some entry ∧ handler = .init location entry := by
  cases h with
  | init k howner hinit =>
    obtain rfl : .proxy = k := Option.some.inj (init_type hinit)
    obtain ⟨entry, hentry, heq⟩ := Option.map_eq_some_iff.1 hinit
    cases heq
    exact ⟨entry, hentry, rfl⟩

/-- a proxy handler that is returned has a location that begins the decoded URI -/
theorem getHandler_proxy {config : NginxConfig} {d : Dispatcher} (hd : Dispatcher.Reachable config d) {uri : Bytes}
    {handler : ProxyHandler} (h : (d.getHandler uri).1 = some (.proxy handler)) :
    handler.clientLocationPath <+: unescapeSpaces uri := by
  rcases getHandler_made hd h with heq | ⟨location, hpre, hmade⟩
  · cases heq
  · obtain ⟨entry, -, rfl⟩ := hmade.proxy
    rwa [init_clientLocationPath]

/-- decoding brings in spaces only -/
theorem mem_unescapeSpaces {uri : Bytes} {c : UInt8} (h : c ∈ unescapeSpaces uri) : c = SP ∨ c ∈ uri := by
  induction uri using unescape_induction with
  | nil => exact Or.inr h
  | hit s ih =>
    rw [unescapeSpaces_hit] at h
    rcases List.mem_cons.1 h with rfl | h
    · exact Or.inl rfl
    · exact (ih h).imp id (List.mem_append_right _)
  | miss a s hmiss ih =>
    rw [unescapeSpaces_miss hmiss] at h
    rcases List.mem_cons.1 h with rfl | h
    · exact Or.inr List.mem_cons_self
    · exact (ih h).imp id (List.mem_cons_of_mem a)

/-! ## Links -/

/-- **Whether a link leads back.** A root-relative link of a page from the host, rewritten by the proxy handler of a
location and followed to the same handler, is asked upstream as it was exactly when the configured host has no path. -/
theorem link_leads_back_iff {config : NginxConfig} {d : Dispatcher} (hd : Dispatcher.Reachable config d)
    {location host : Bytes} {port : ℤ} {p uri : Bytes} (hp : RootRelative p)
    (huri : rewrittenLink (.init location (host, port)) p = some uri)
    (hrouted : (d.getHandler uri).1 = some (.proxy (.init location (host, port)))) :
    askedUri (.init location (host, port)) uri = some p ↔ ¬ HasPath host := by
  apply askedUri_link_iff location host port hp huri
  -- a location with a NUL would be cut, and begin no URI
  intro hnul
  have hbegins := getHandler_proxy hd hrouted
  rw [init_clientLocationPath] at hbegins
  rcases mem_unescapeSpaces (hbegins.subset hnul) with hspace | hmem
  · exact absurd hspace (by decide)
  · rw [rewrittenLink_rootRelative _ hp] at huri
    rw [← Option.some.inj huri] at hmem
    exact not_mem_cString _ hmem

/-! ## Two hosts -/

/-- the URI is given to the proxy handler of the location, which has the host -/
def ProxiedAt (location host uri : Bytes) (config : NginxConfig) : Prop :=
  (Dispatcher.init config).isSome = true ∧
    chosen config (unescapeSpaces uri) = some location ∧
    owner config location config.handlerTypes = some (ascii "ProxyHandler") ∧
    config.proxyLocations.lookup location = some (host, 80)

instance decidableProxiedAt (location host uri : Bytes) : DecidablePred (ProxiedAt location host uri) :=
  fun _ => inferInstanceAs (Decidable (_ ∧ _ ∧ _ ∧ _))

theorem ProxiedAt.getHandler {text location host uri : Bytes} {accepted : Bool} {config : NginxConfig}
    (hparse : parse .fresh text = .ok (accepted, config)) (h : ProxiedAt location host uri config) :
    ∃ d, Dispatcher.init config = some d ∧ (d.getHandler uri).1 = some (.proxy (.init location (host, 80))) := by
  obtain ⟨hsome, hchosen, howner, hlookup⟩ := h
  obtain ⟨d, hd⟩ := Option.isSome_iff_exists.1 hsome
  refine ⟨d, hd, ?_⟩
  obtain ⟨handler, hanswer, hmade⟩ :=
    (registered_of_reachable (tables_recorded hparse).2 (.init hd)).getHandler uri
  rw [hchosen] at hmade
  have hmade : Made config location handler := hmade
  obtain ⟨k, htype, hk⟩ := hmade.type
  obtain rfl : k = .proxy := name_injective (Option.some.inj (hk.symm.trans howner))
  cases handler with
  | proxy made =>
    obtain ⟨entry, hentry, rfl⟩ := hmade.proxy
    rw [hanswer, Option.some.inj (hentry.symm.trans hlookup)]
  | _ => cases htype

/-- the handler of the location `/w` -/
def wiki (host : Bytes) : ProxyHandler := .init (ascii "/w") (host, 80)

/-- a host that ends with its first slash -/
theorem link_leads_back_slash :
    ∃ config d,
      parse .fresh (ascii "location \"/w\" ProxyHandler \x7b host \"h/\"; port 80; \x7d") = .ok (true, config) ∧
        Dispatcher.init config = some d ∧ askedUri (wiki (ascii "h/")) (ascii "/w/a") = some (ascii "/a") := by
  have hrun : ∃ config,
      parse .fresh (ascii "location \"/w\" ProxyHandler \x7b host \"h/\"; port 80; \x7d") = .ok (true, config) ∧
        ProxiedAt (ascii "/w") (ascii "h/") (ascii "/w/a") config := exists_of_run (by decide +kernel)
  obtain ⟨config, hparse, hproxied⟩ := hrun
  obtain ⟨d, hd, hrouted⟩ := hproxied.getHandler hparse
  refine ⟨config, d, hparse, hd, (link_leads_back_iff (.init hd) ⟨rfl, by decide, by decide⟩ rfl hrouted).2 ?_⟩
  rintro ⟨pos, hpos, hlt⟩
  have hfirst : Bytes.find [SLASH] (ascii "h/") = some 1 := by decide
  obtain rfl := Option.some.inj (hfirst.symm.trans hpos)
  exact absurd hlt (by decide)

/-- a host with a path: the link to `/a` leads to `/path/a` -/
theorem link_path :
    ∃ config d uri,
      parse .fresh (ascii "location \"/w\" ProxyHandler \x7b host \"h/path\"; port 80; \x7d") = .ok (true, config) ∧
        Dispatcher.init config = some d ∧ RootRelative (ascii "/a") ∧
        rewrittenLink (wiki (ascii "h/path")) (ascii "/a") = some uri ∧
        (d.getHandler uri).1 = some (.proxy (wiki (ascii "h/path"))) ∧
        askedUri (wiki (ascii "h/path")) uri = some (ascii "/path/a") := by
  have hrun : ∃ config,
      parse .fresh (ascii "location \"/w\" ProxyHandler \x7b host \"h/path\"; port 80; \x7d") = .ok (true, config) ∧
        ProxiedAt (ascii "/w") (ascii "h/path") (ascii "/w/a") config := exists_of_run (by decide +kernel)
  obtain ⟨config, hparse, hproxied⟩ := hrun
  obtain ⟨d, hd, hrouted⟩ := hproxied.getHandler hparse
  exact ⟨config, d, ascii "/w/a", hparse, hd, ⟨rfl, by decide, by decide⟩, by decide +kernel, hrouted, by decide +kernel⟩

end BlogServer.Dispatch
