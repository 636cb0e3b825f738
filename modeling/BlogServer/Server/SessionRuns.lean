/-
Runs of a session over a stream of reads.

(1) KEEP-ALIVE ISOLATION. Requests that arrive one after the other, each cut into reads of its own, reach the handlers
exactly as each is parsed alone (`keepAlive_isolation`). What carries it: `contentsize_` is zero whenever the parser
says good, so `reset` restores a new parser (`reset_of_good`), and no verdict looks at what a new builder leaves
uninitialised (`accepts_uninit`).

(2) SEGMENTATION. A session reads byte by byte, except that it must know at the last byte of a request whether the read
ends there: `parse` calls a request bad when bytes follow it in the same read. So the outcome depends on the bytes and
on which request ends are ends of reads, and on nothing else (`outcome_eq_of_same_ends`).
- `outcome_segmentation_dependent`: two requests in one read and in two.
-/
import BlogServer.Server.Session

namespace BlogServer.Server

open BlogServer.Http BlogServer.Scan RequestParser

variable {σ : Type*} (d : Dispatcher σ) (junk : ℕ → MethodEnum)

theorem advance_advance (s : Session σ) (t t' : St) (k k' : ℕ) :
    (s.advance t k).advance t' k' = s.advance t' (k + k') := by
  simp [Session.advance, Nat.add_assoc]

/-! ## (1) Keep-alive isolation -/

/-- the reads of one message: the session parses on until the last of them and then answers -/
theorem deliverAll_message {reads : List Bytes} {s : Session σ} {t : St} (hs : s.reading)
    (h : Accepts consume (s.requestParser, s.requestBuilder) reads.flatten t) (hne : ∀ data ∈ reads, data ≠ []) :
    deliverAll d junk s reads = (s.advance t reads.flatten.length).served d junk := by
  induction reads generalizing s with
  | nil => cases h
  | cons data reads ih =>
    rw [deliverAll, List.foldl_cons]
    by_cases hlast : reads.flatten = []
    · have hnil : reads = [] := by
        by_contra hcons
        obtain ⟨x, xs, rfl⟩ := List.exists_cons_of_ne_nil hcons
        simp [hne x] at hlast
      subst hnil
      have hgood := parse_good_iff.2 ⟨rfl, by simpa using h⟩
      simpa using deliver_good hs hgood
    · obtain ⟨r, hr⟩ := h.reads_prefix rfl hlast
      have hparse : parse (s.requestParser, s.requestBuilder) data = (.indeterminate, [], r) := by
        rw [parse_eq_feed, hr]; rfl
      rw [deliver_indeterminate hs hparse]
      have hrest : Accepts consume ((s.advance r (data.length - 0)).requestParser,
          (s.advance r (data.length - 0)).requestBuilder) reads.flatten t := by
        rw [Accepts, List.flatten_cons, feed_append hr] at h; exact h
      have := ih (s := s.advance r (data.length - 0)) hs hrest fun x hx => hne x (by simp [hx])
      rw [deliverAll] at this
      simpa [advance_advance] using this

/-- a known method is built whatever `method_` held -/
theorem methodOf_known {method : Bytes} (h : KnownMethod method) (m₀ m₁ : MethodEnum) :
    methodOf m₀ method = methodOf m₁ method := by
  obtain ⟨m, rfl⟩ := h
  rw [methodOf_name, methodOf_name]

theorem buildRequest_known {b : RequestBuilder} (h : KnownMethod b.method) (m₀ m₁ : MethodEnum) :
    b.buildRequest m₀ = b.buildRequest m₁ := by
  rw [RequestBuilder.buildRequest, methodOf_known h m₀ m₁]; rfl

/-- **Step lemma.** A session with a new parser that gets a complete keep-alive message passes it on and is again a
session with a new parser and a new builder. -/
theorem deliverAll_keepAlive {reads : List Bytes} {s : Session σ} {u : Uninit} {t : St} (hs : s.reading)
    (hp : s.requestParser = .fresh) (hb : s.requestBuilder = .fresh u)
    (h : Accepts consume (RequestParser.fresh, .fresh u) reads.flatten t) (hne : ∀ data ∈ reads, data ≠ [])
    (hk : t.2.keepAlive = true) :
    (deliverAll d junk s reads).reading ∧ (deliverAll d junk s reads).requestParser = .fresh ∧
      (deliverAll d junk s reads).requestBuilder = .zero := by
  obtain ⟨-, c, r, -, -, hgood⟩ := h.last
  rw [deliverAll_message d junk hs (by rw [hp, hb]; exact h) hne]
  simp only [Session.served, Session.advance, hk, if_true]
  exact ⟨hs, reset_of_good hgood, trivial⟩

theorem deliverAll_calls {reads : List Bytes} {s : Session σ} {u : Uninit} {t : St} (hs : s.reading)
    (hp : s.requestParser = .fresh) (hb : s.requestBuilder = .fresh u)
    (h : Accepts consume (RequestParser.fresh, .fresh u) reads.flatten t) (hne : ∀ data ∈ reads, data ≠ []) :
    (deliverAll d junk s reads).calls = s.calls ++ [t.2.buildRequest (junk s.calls.length)] := by
  rw [deliverAll_message d junk hs (by rw [hp, hb]; exact h) hne, Session.served_calls]
  rfl

/-- the builder that a message leaves when it is parsed alone -/
def builtAlone (u : Uninit) (message : Bytes) : RequestBuilder :=
  (parse (RequestParser.fresh, .fresh u) message).2.2.2

/-- a message that is accepted alone, with a known method -/
structure Complete (u : Uninit) (message : Bytes) : Prop where
  good : (parse (RequestParser.fresh, .fresh u) message).1 = .good
  known : KnownMethod (builtAlone u message).method

/-- the same message is accepted from any builder, with the same request -/
theorem Complete.accepts {u : Uninit} {message : Bytes} (h : Complete u message) (u' : Uninit) (m₀ m₁ : MethodEnum) :
    ∃ t, Accepts consume (RequestParser.fresh, .fresh u') message t ∧
      t.2.buildRequest m₁ = (builtAlone u message).buildRequest m₀ ∧
      t.2.keepAlive = (builtAlone u message).keepAlive := by
  have hparse : parse (RequestParser.fresh, .fresh u) message =
      (.good, (parse (RequestParser.fresh, .fresh u) message).2.1,
        (parse (RequestParser.fresh, .fresh u) message).2.2) := by rw [← h.good]
  obtain ⟨t, ht, -, hreq, hmethod, hk⟩ := accepts_uninit (parse_good_iff.1 hparse).2 u' m₀
  have hknown : KnownMethod t.2.method := by rw [hmethod]; exact h.known
  exact ⟨t, ht, (buildRequest_known hknown m₁ m₀).trans hreq, hk⟩

/-- **Run lemma.** Messages from a session with a new parser and builder. -/
theorem deliverAll_messages {u : Uninit} {messages : List (List Bytes)} (m₀ : MethodEnum)
    (hne : ∀ reads ∈ messages, ∀ data ∈ reads, data ≠ [])
    (hmsg : ∀ reads ∈ messages, Complete u reads.flatten)
    (hkeep : ∀ reads ∈ messages.dropLast, (builtAlone u reads.flatten).keepAlive = true) {s : Session σ} {u' : Uninit}
    (hs : s.reading) (hp : s.requestParser = .fresh) (hb : s.requestBuilder = .fresh u') :
    (deliverAll d junk s messages.flatten).calls =
      s.calls ++ messages.map fun reads => (builtAlone u reads.flatten).buildRequest m₀ := by
  induction messages generalizing s u' with
  | nil => simp [deliverAll]
  | cons reads messages ih =>
    obtain ⟨t, ht, hreq, hk⟩ := (hmsg reads (by simp)).accepts u' m₀ (junk s.calls.length)
    have hcalls := deliverAll_calls d junk hs hp hb ht (hne reads (by simp))
    rw [hreq] at hcalls
    rw [List.flatten_cons, deliverAll, List.foldl_append, ← deliverAll, ← deliverAll]
    by_cases hlast : messages = []
    · subst hlast
      simpa [deliverAll] using hcalls
    · rw [List.dropLast_cons_of_ne_nil hlast] at hkeep
      obtain ⟨hs', hp', hb'⟩ := deliverAll_keepAlive d junk hs hp hb ht (hne reads (by simp))
        (hk.trans (hkeep reads (by simp)))
      rw [ih (fun x hx => hne x (by simp [hx])) (fun x hx => hmsg x (by simp [hx]))
        (fun x hx => hkeep x (by simp [hx])) hs' hp' hb', hcalls]
      simp

/-- **Keep-alive isolation.** Complete messages, every one but possibly the last asking to keep the connection, each
delivered in reads of its own: the handlers get one request a message, in order, each the request the message builds
when it is parsed alone. -/
theorem keepAlive_isolation (u u' : Uninit) (world : σ) (m₀ : MethodEnum)
    (messages : List (List Bytes)) (hne : ∀ reads ∈ messages, ∀ data ∈ reads, data ≠ [])
    (hmsg : ∀ reads ∈ messages, Complete u reads.flatten)
    (hkeep : ∀ reads ∈ messages.dropLast, (builtAlone u reads.flatten).keepAlive = true) :
    (deliverAll d junk (.start u' world) messages.flatten).calls =
      messages.map fun reads => (builtAlone u reads.flatten).buildRequest m₀ :=
  deliverAll_messages d junk m₀ hne hmsg hkeep (s := .start u' world) rfl rfl rfl

/-- a dispatcher whose handlers answer 200 with an empty body -/
def alwaysOk : Dispatcher Unit := ⟨fun s _ => (⟨StatusCode.ok, .empty, []⟩, s), false, fun s _ _ => s⟩

/-- a request that asks to keep the connection -/
def keepAliveGet : Bytes := ascii "GET / HTTP/1.1\r\nConnection: Keep-Alive\r\n\r\n"

theorem keepAliveGet_complete : Complete ⟨0, 0, 0⟩ keepAliveGet :=
  ⟨by decide +kernel, .GET, by decide +kernel⟩

/-- the theorem at two such requests, the first cut in two -/
theorem keepAlive_isolation_two :
    (deliverAll alwaysOk (fun _ => .PUT) (.start ⟨5, 6, 7⟩ ())
      [keepAliveGet.take 9, keepAliveGet.drop 9, keepAliveGet]).calls =
      [(builtAlone ⟨0, 0, 0⟩ keepAliveGet).buildRequest .GET, (builtAlone ⟨0, 0, 0⟩ keepAliveGet).buildRequest .GET] := by
  have hcut : [keepAliveGet.take 9, keepAliveGet.drop 9].flatten = keepAliveGet := by decide +kernel
  have := keepAlive_isolation alwaysOk (fun _ => .PUT) ⟨0, 0, 0⟩ ⟨5, 6, 7⟩ () .GET
    [[keepAliveGet.take 9, keepAliveGet.drop 9], [keepAliveGet]] (by decide +kernel)
    (by
      intro reads hreads
      simp only [List.mem_cons, List.not_mem_nil, or_false] at hreads
      rcases hreads with rfl | rfl
      · rw [hcut]; exact keepAliveGet_complete
      · rw [List.flatten_singleton]; exact keepAliveGet_complete)
    (by decide +kernel)
  rw [List.map_cons, List.map_singleton, hcut, List.flatten_singleton] at this
  exact this

/-! ## (2) Segmentation -/

/-- a session reads one byte; `ends p` says whether a read ends when `p` bytes have been passed -/
def readByte (ends : ℕ → Bool) (s : Session σ) (c : UInt8) : Session σ :=
  if s.pending = [.handleRead] then
    match consume (s.requestParser, s.requestBuilder) c with
    | (.indeterminate, t) => s.advance t 1
    | (.bad, t) => (s.advance t 1).refused
    | (.good, t) => if ends (s.consumed + 1) then (s.advance t 1).served d junk else (s.advance t 1).refused
  else s

variable {d junk} {ends ends' : ℕ → Bool} {s : Session σ} {c : UInt8} {t : St}

theorem readByte_indeterminate (hs : s.reading)
    (hc : consume (s.requestParser, s.requestBuilder) c = (.indeterminate, t)) :
    readByte d junk ends s c = s.advance t 1 := by
  rw [readByte, if_pos (show s.pending = [.handleRead] from hs), hc]

theorem readByte_bad (hs : s.reading) (hc : consume (s.requestParser, s.requestBuilder) c = (.bad, t)) :
    readByte d junk ends s c = (s.advance t 1).refused := by
  rw [readByte, if_pos (show s.pending = [.handleRead] from hs), hc]

theorem readByte_good (hs : s.reading) (hc : consume (s.requestParser, s.requestBuilder) c = (.good, t)) :
    readByte d junk ends s c =
      if ends (s.consumed + 1) then (s.advance t 1).served d junk else (s.advance t 1).refused := by
  rw [readByte, if_pos (show s.pending = [.handleRead] from hs), hc]

theorem readByte_stopped (hs : ¬ s.reading) (w : Bytes) : w.foldl (readByte d junk ends) s = s := by
  induction w with
  | nil => rfl
  | cons c w ih => rw [List.foldl_cons, readByte, if_neg (show ¬ s.pending = [.handleRead] from hs)]; exact ih

/-- a byte is passed, and the session reads on or has stopped -/
theorem readByte_reading (ends : ℕ → Bool) (hs : s.reading) (c : UInt8) :
    (readByte d junk ends s c).consumed = s.consumed + 1 ∧
      ((readByte d junk ends s c).reading ∨ (readByte d junk ends s c).pending = []) := by
  rcases hc : consume (s.requestParser, s.requestBuilder) c with ⟨v, t⟩
  cases v with
  | indeterminate => rw [readByte_indeterminate hs hc]; exact ⟨rfl, Or.inl hs⟩
  | bad => rw [readByte_bad hs hc]; exact ⟨rfl, Or.inr rfl⟩
  | good =>
    rw [readByte_good hs hc]
    split_ifs
    · exact ⟨Session.served_consumed d junk _, Session.served_pending d junk hs⟩
    · exact ⟨rfl, Or.inr rfl⟩

theorem refused_not_reading (s : Session σ) : ¬ s.refused.reading := by simp [Session.reading, Session.refused]

/-- the first byte of a longer read, when it gives no answer -/
theorem deliver_cons {c : UInt8} {w : Bytes} {t : St} (hs : s.reading)
    (hc : consume (s.requestParser, s.requestBuilder) c = (.indeterminate, t)) :
    deliver d junk s (c :: w) = deliver d junk (s.advance t 1) w := by
  have hlen : (feed consume t w).2.2.length ≤ w.length := feed_rest_length t w
  rcases hw : parse t w with ⟨v, rest, t'⟩
  have hcons : parse (s.requestParser, s.requestBuilder) (c :: w) = (v, rest, t') := by simp [parse, hc, hw]
  have hadd : 1 + (w.length - rest.length) = (c :: w).length - rest.length := by
    rw [parse_eq_feed] at hw
    obtain ⟨-, hrest, -⟩ : _ ∧ _ ∧ _ := by simpa using hw
    rw [hrest] at hlen
    rw [List.length_cons]
    omega
  cases v with
  | indeterminate =>
    rw [deliver_indeterminate hs hcons, deliver_indeterminate (s := s.advance t 1) hs hw, advance_advance, hadd]
  | bad => rw [deliver_bad hs hcons, deliver_bad (s := s.advance t 1) hs hw, advance_advance, hadd]
  | good => rw [deliver_good hs hcons, deliver_good (s := s.advance t 1) hs hw, advance_advance, hadd]

/-- **A read is its bytes**, of which only the last is at the end of a read. -/
theorem deliver_eq_bytes {w : Bytes} (hne : w ≠ []) (hs : s.reading)
    (hin : ∀ i, 0 < i → i < w.length → ends (s.consumed + i) = false) (hend : ends (s.consumed + w.length) = true) :
    deliver d junk s w = w.foldl (readByte d junk ends) s := by
  induction w generalizing s with
  | nil => exact absurd rfl hne
  | cons c w ih =>
    rw [List.foldl_cons]
    rcases hc : consume (s.requestParser, s.requestBuilder) c with ⟨v, t⟩
    cases v with
    | indeterminate =>
      rw [readByte_indeterminate hs hc, deliver_cons hs hc]
      by_cases hw : w = []
      · subst hw
        rw [deliver_indeterminate (s := s.advance t 1) hs rfl]
        rfl
      · have hconsumed : ∀ i, (s.advance t 1).consumed + i = s.consumed + (i + 1) := fun i => by
          simp only [Session.advance]; omega
        refine ih hw hs (fun i h0 hi => ?_) ?_
        · rw [hconsumed]
          exact hin (i + 1) (by omega) (by simpa using hi)
        · rw [hconsumed]
          exact hend
    | bad =>
      have hbad : parse (s.requestParser, s.requestBuilder) (c :: w) = (.bad, w, t) := by simp [parse, hc]
      rw [deliver_bad hs hbad, readByte_bad hs hc, readByte_stopped (refused_not_reading _)]
      simp
    | good =>
      rw [readByte_good hs hc]
      by_cases hw : w = []
      · subst hw
        have hgood : parse (s.requestParser, s.requestBuilder) [c] = (.good, [], t) := by simp [parse, hc]
        rw [deliver_good hs hgood, if_pos (show ends (s.consumed + 1) = true from hend)]
        rfl
      · have hbad : parse (s.requestParser, s.requestBuilder) (c :: w) = (.bad, w, t) := by simp [parse, hc, hw]
        have hpos := List.length_pos_iff.2 hw
        have h1 : ¬ ends (s.consumed + 1) = true := by
          rw [hin 1 (by omega) (by rw [List.length_cons]; omega)]
          decide
        rw [deliver_bad hs hbad, if_neg h1, readByte_stopped (refused_not_reading _)]
        simp

/-- where the reads of a stream end, counted from `k` -/
def readEnds (k : ℕ) : List Bytes → List ℕ
  | [] => []
  | data :: reads => (k + data.length) :: readEnds (k + data.length) reads

theorem lt_of_mem_readEnds {k p : ℕ} {reads : List Bytes} (hne : ∀ data ∈ reads, data ≠ []) (hp : p ∈ readEnds k reads) :
    k < p := by
  induction reads generalizing k with
  | nil => simp [readEnds] at hp
  | cons data reads ih =>
    have hpos := List.length_pos_iff.2 (hne data (by simp))
    rcases List.mem_cons.1 hp with rfl | hp
    · omega
    · have := ih (fun x hx => hne x (by simp [hx])) hp
      omega

/-- a stream of bytes is passed as long as the session reads, and the session reads on or has stopped -/
theorem readBytes_reading (ends : ℕ → Bool) (hs : s.reading) (w : Bytes) :
    ((w.foldl (readByte d junk ends) s).reading ∧
        (w.foldl (readByte d junk ends) s).consumed = s.consumed + w.length) ∨
      (w.foldl (readByte d junk ends) s).pending = [] := by
  induction w generalizing s with
  | nil => exact Or.inl ⟨hs, rfl⟩
  | cons c w ih =>
    rw [List.foldl_cons]
    obtain ⟨h1, hr | hr⟩ := readByte_reading (d := d) ends hs c
    · have := ih hr
      rwa [h1, Nat.add_assoc, Nat.add_comm 1, ← List.length_cons] at this
    · rw [readByte_stopped (by simp [Session.reading, hr])]
      exact Or.inr hr

/-- **Run lemma.** A stream of reads is its bytes, with the ends of the reads marked. -/
theorem deliverAll_eq_bytes {reads : List Bytes} (hne : ∀ data ∈ reads, data ≠ []) (hs : s.reading ∨ s.pending = [])
    (hends : ∀ p, s.consumed < p → (ends p = true ↔ p ∈ readEnds s.consumed reads)) :
    deliverAll d junk s reads = reads.flatten.foldl (readByte d junk ends) s := by
  induction reads generalizing s with
  | nil => rfl
  | cons data reads ih =>
    rcases hs with hs | hs
    · have hpos := List.length_pos_iff.2 (hne data (by simp))
      have htail : ∀ x ∈ reads, x ≠ [] := fun x hx => hne x (by simp [hx])
      have hbytes : deliver d junk s data = data.foldl (readByte d junk ends) s := by
        refine deliver_eq_bytes (hne data (by simp)) hs (fun i h0 hi => ?_) ?_
        · rw [Bool.eq_false_iff, ne_eq, hends _ (by omega), readEnds, List.mem_cons, not_or]
          exact ⟨by omega, fun hmem => by have := lt_of_mem_readEnds htail hmem; omega⟩
        · rw [hends _ (by omega), readEnds]
          exact List.mem_cons_self
      rw [deliverAll, List.foldl_cons, ← deliverAll, List.flatten_cons, List.foldl_append, hbytes]
      rcases readBytes_reading (d := d) ends hs data with ⟨hr, hc⟩ | hr
      · refine ih htail (Or.inl hr) fun p hp => ?_
        rw [hc] at hp ⊢
        rw [hends p (by omega), readEnds, List.mem_cons, or_iff_right (by omega)]
      · have hstop : ¬ (data.foldl (readByte d junk ends) s).reading := by simp [Session.reading, hr]
        rw [deliverAll_stopped hr, readByte_stopped hstop]
    · rw [deliverAll_stopped hs, readByte_stopped (by simp [Session.reading, hs])]

/-- in the stream `w` a request ends at offset `p`: a session that reads `w` one byte at a time finds it complete
there -/
def RequestEnd (d : Dispatcher σ) (junk : ℕ → MethodEnum) (s : Session σ) (w : Bytes) (p : ℕ) : Prop :=
  ∃ u c v, w = u ++ c :: v ∧ p = u.length + 1 ∧ (deliverAll d junk s (u.map ([·]))).reading ∧
    (consume ((deliverAll d junk s (u.map ([·]))).requestParser, (deliverAll d junk s (u.map ([·]))).requestBuilder)
      c).1 = .good

theorem deliver_byte (hs : s.reading) (c : UInt8) : deliver d junk s [c] = readByte d junk (fun _ => true) s c := by
  have h : deliver d junk s [c] = [c].foldl (readByte d junk fun _ => true) s := by
    refine deliver_eq_bytes (List.cons_ne_nil c []) hs (fun i h0 hi => ?_) rfl
    rw [List.length_singleton] at hi
    omega
  exact h

/-- the first byte ends a request when the parser says so -/
theorem requestEnd_one (hs : s.reading) {c : UInt8} {w : Bytes} :
    RequestEnd d junk s (c :: w) 1 ↔ (consume (s.requestParser, s.requestBuilder) c).1 = .good := by
  constructor
  · rintro ⟨u, a, v, hw, hp, -, hgood⟩
    obtain rfl : u = [] := List.eq_nil_of_length_eq_zero (by omega)
    obtain ⟨rfl, -⟩ := List.cons.inj hw
    exact hgood
  · exact fun hgood => ⟨[], c, w, rfl, rfl, hs, hgood⟩

/-- the request ends behind a byte are those of the session that has read it -/
theorem requestEnd_cons (hs : s.reading) {c : UInt8} {w : Bytes} {r : Session σ}
    (hr : readByte d junk (fun _ => true) s c = r) {p : ℕ} (hp : 0 < p) :
    RequestEnd d junk s (c :: w) (p + 1) ↔ RequestEnd d junk r w p := by
  have hrun : ∀ u : Bytes, deliverAll d junk s ((c :: u).map ([·])) = deliverAll d junk r (u.map ([·])) := by
    intro u
    rw [List.map_cons, deliverAll, List.foldl_cons, deliver_byte hs, hr, ← deliverAll]
  constructor
  · rintro ⟨u, a, v, hw, hlength, hu, hgood⟩
    cases u with
    | nil =>
      rw [List.length_nil] at hlength
      omega
    | cons c' u =>
      obtain ⟨rfl, rfl⟩ := List.cons.inj hw
      rw [List.length_cons] at hlength
      rw [hrun] at hu hgood
      exact ⟨u, a, v, rfl, by omega, hu, hgood⟩
  · rintro ⟨u, a, v, rfl, rfl, hu, hgood⟩
    exact ⟨c :: u, a, v, rfl, rfl, by rw [hrun]; exact hu, by rw [hrun]; exact hgood⟩

/-- the two ways of marking ends agree on the request ends, up to the first that is no end, so the bytes are read alike
-/
theorem readBytes_eq {w : Bytes} (hs : s.reading)
    (h : ∀ p, RequestEnd d junk s w p →
      (∀ q < p, RequestEnd d junk s w q → ends (s.consumed + q) = true) →
        ends (s.consumed + p) = ends' (s.consumed + p)) :
    w.foldl (readByte d junk ends) s = w.foldl (readByte d junk ends') s := by
  induction w generalizing s with
  | nil => rfl
  | cons c w ih =>
    -- they agree on the tail, as long as a session reading byte by byte goes on
    have htail : ∀ r : Session σ, readByte d junk (fun _ => true) s c = r → r.consumed = s.consumed + 1 →
        (RequestEnd d junk s (c :: w) 1 → ends (s.consumed + 1) = true) →
        ∀ p, RequestEnd d junk r w p → (∀ q < p, RequestEnd d junk r w q → ends (r.consumed + q) = true) →
          ends (r.consumed + p) = ends' (r.consumed + p) := by
      intro r hr hcons hfirst p hp hbefore
      have hpos : 0 < p := by
        obtain ⟨u, a, v, -, rfl, -⟩ := hp
        omega
      have hshift : ∀ q, s.consumed + (q + 1) = r.consumed + q := fun q => by omega
      rw [← hshift]
      refine h (p + 1) ((requestEnd_cons hs hr hpos).2 hp) fun q hq hend => ?_
      obtain ⟨u, -, -, -, hlength, -⟩ := id hend
      obtain rfl | hne := Decidable.eq_or_ne q 1
      · exact hfirst hend
      · obtain ⟨q, rfl⟩ : ∃ q', q = q' + 1 := ⟨u.length, hlength⟩
        rw [hshift]
        exact hbefore q (by omega) ((requestEnd_cons hs hr (by omega)).1 hend)
    rw [List.foldl_cons, List.foldl_cons]
    rcases hc : consume (s.requestParser, s.requestBuilder) c with ⟨v, t⟩
    cases v with
    | indeterminate =>
      have hnot : RequestEnd d junk s (c :: w) 1 → ends (s.consumed + 1) = true := by
        intro hend
        have hgood := (requestEnd_one hs).1 hend
        rw [hc] at hgood
        cases hgood
      rw [readByte_indeterminate hs hc, readByte_indeterminate hs hc]
      exact ih hs (htail _ (readByte_indeterminate hs hc) rfl hnot)
    | bad =>
      rw [readByte_bad hs hc, readByte_bad hs hc, readByte_stopped (refused_not_reading _),
        readByte_stopped (refused_not_reading _)]
    | good =>
      have hfirst : RequestEnd d junk s (c :: w) 1 := (requestEnd_one hs).2 (by rw [hc])
      have hhere : ends (s.consumed + 1) = ends' (s.consumed + 1) := by
        refine h 1 hfirst fun q hq hend => ?_
        obtain ⟨u, -, -, -, hlength, -⟩ := hend
        omega
      rw [readByte_good hs hc, readByte_good hs hc, ← hhere]
      by_cases he : ends (s.consumed + 1) = true
      · rw [if_pos he]
        by_cases hr : ((s.advance t 1).served d junk).reading
        · exact ih hr (htail _ (by rw [readByte_good hs hc, if_pos rfl]) (Session.served_consumed d junk _) fun _ => he)
        · rw [readByte_stopped hr, readByte_stopped hr]
      · rw [if_neg he, readByte_stopped (refused_not_reading _), readByte_stopped (refused_not_reading _)]

/-- **Segmentation.** Two ways of cutting a stream into reads that end a read at the same request ends, up to the first
at which they end none, have the same outcome: the same requests, the same responses, the same point at which reading
stops, the same session. -/
theorem outcome_eq_of_same_ends (d : Dispatcher σ) (junk : ℕ → MethodEnum) (u : Uninit) (world : σ)
    (reads reads' : List Bytes) (hne : ∀ data ∈ reads, data ≠ []) (hne' : ∀ data ∈ reads', data ≠ [])
    (hw : reads.flatten = reads'.flatten)
    (hends : ∀ p, RequestEnd d junk (.start u world) reads.flatten p →
      (∀ q < p, RequestEnd d junk (.start u world) reads.flatten q → q ∈ readEnds 0 reads) →
        (p ∈ readEnds 0 reads ↔ p ∈ readEnds 0 reads')) :
    deliverAll d junk (.start u world) reads = deliverAll d junk (.start u world) reads' := by
  have hs : (Session.start u world).reading := rfl
  have hbytes : ∀ cut : List Bytes, (∀ data ∈ cut, data ≠ []) →
      deliverAll d junk (.start u world) cut =
        cut.flatten.foldl (readByte d junk fun p => decide (p ∈ readEnds 0 cut)) (.start u world) :=
    fun cut hcut => deliverAll_eq_bytes hcut (Or.inl hs) fun p _ => decide_eq_true_iff
  rw [hbytes reads hne, hbytes reads' hne', ← hw]
  refine readBytes_eq hs fun p hp hbefore => ?_
  simp only [Session.start, Nat.zero_add, decide_eq_decide, decide_eq_true_eq] at hbefore ⊢
  exact hends p hp hbefore

/-- **The grouping of reads shows.** Two keep-alive requests in one read are answered 400; in two reads both are
served. -/
theorem outcome_segmentation_dependent :
    ¬ ∀ reads reads' : List Bytes, (∀ data ∈ reads, data ≠ []) → (∀ data ∈ reads', data ≠ []) →
      reads.flatten = reads'.flatten →
      (deliverAll alwaysOk (fun _ => .GET) (.start ⟨0, 0, 0⟩ ()) reads).calls =
        (deliverAll alwaysOk (fun _ => .GET) (.start ⟨0, 0, 0⟩ ()) reads').calls := by
  intro h
  have := h [keepAliveGet ++ keepAliveGet] [keepAliveGet, keepAliveGet] (by decide +kernel) (by decide +kernel)
    (by simp)
  have hlen := congrArg List.length this
  revert hlen
  decide +kernel

/-- the one request end of `keepAliveGet` is its last byte -/
theorem keepAliveGet_requestEnd {p : ℕ}
    (h : RequestEnd alwaysOk (fun _ => .GET) (.start ⟨0, 0, 0⟩ ()) keepAliveGet p) : p = keepAliveGet.length := by
  obtain ⟨u, c, v, hw, rfl, -, hgood⟩ := h
  have hinside : ∀ i < keepAliveGet.length - 1,
      (consume ((deliverAll alwaysOk (fun _ => .GET) (.start ⟨0, 0, 0⟩ ())
          ((keepAliveGet.take i).map ([·]))).requestParser,
        (deliverAll alwaysOk (fun _ => .GET) (.start ⟨0, 0, 0⟩ ())
          ((keepAliveGet.take i).map ([·]))).requestBuilder) (keepAliveGet.getD i 0)).1 ≠ .good := by
    decide +kernel
  have hlen : keepAliveGet.length = u.length + 1 + v.length := by rw [hw]; simp; omega
  by_contra hne
  have := hinside u.length (by omega)
  rw [show keepAliveGet.take u.length = u by rw [hw]; simp, show keepAliveGet.getD u.length 0 = c by rw [hw]; simp]
    at this
  exact this hgood

/-- the theorem at a request cut in two at different bytes -/
theorem outcome_eq_of_same_ends_get :
    deliverAll alwaysOk (fun _ => .GET) (.start ⟨0, 0, 0⟩ ()) [keepAliveGet.take 9, keepAliveGet.drop 9] =
      deliverAll alwaysOk (fun _ => .GET) (.start ⟨0, 0, 0⟩ ()) [keepAliveGet.take 20, keepAliveGet.drop 20] := by
  refine outcome_eq_of_same_ends alwaysOk (fun _ => .GET) ⟨0, 0, 0⟩ () [keepAliveGet.take 9, keepAliveGet.drop 9]
    [keepAliveGet.take 20, keepAliveGet.drop 20] (by decide) (by decide) (by decide) ?_
  intro p hp _
  rw [show [keepAliveGet.take 9, keepAliveGet.drop 9].flatten = keepAliveGet by decide +kernel] at hp
  rw [keepAliveGet_requestEnd hp]
  decide +kernel

end BlogServer.Server
