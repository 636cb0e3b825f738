/-
A post, the redirect that answers it, and the GET that follows the redirect.

`handle_post_blog` writes the Location in two ways: the id after a prefix that ends in '/', a '/' and the id after any
other. `handle_request` reads it in one way: it drops the prefix and one byte more. After a prefix that ends in '/' that
byte is the first digit of the id, so the page is that of another post, or of none.

- `handleGet_location`: what the GET of a location asks the database for.
- `onePage_postid`: a page shows which post it is of.
- `postGet_iff`: the GET shows what was just posted exactly when the prefix is not empty and does not end in '/', and
  the id has not wrapped around.
- `postGet_slash`: the first post under "/blog/".
-/
import BlogServer.Posts.Submission
import BlogServer.Core.DecimalOrder
import Mathlib.Data.List.GetD

namespace BlogServer.Posts

open BlogServer.Byte BlogServer.Decimal BlogServer.Http

/-! ## The store -/

/-- the title and the body that `handle_request` gives to `handle_post_blog` -/
def postedTitle (request : Request) : Bytes := (parseRequestBody (urldecode request.body)).getD titleKey []

def postedBody (request : Request) : Bytes := (parseRequestBody (urldecode request.body)).getD bodyKey []

/-- the post that `insert_blog` of a `mock_database` adds -/
def newPost (posts : List Blog) (request : Request) : Blog :=
  ⟨int32 (posts.length + 1), postedTitle request, postedBody request⟩

/-- the posts after requests to the handler, one after the other -/
def storeAfter (handler : BlogUploadHandler) (requests : List Request) : List Blog :=
  requests.foldl (fun posts request => (handleRequest handler mockDatabase request posts).2) []

/-- the post at each place has the id that `insert_blog` gave it -/
def InOrder (posts : List Blog) : Prop := ∀ i (h : i < posts.length), (posts[i]).postid = int32 (i + 1)

theorem handleRequest_store (handler : BlogUploadHandler) (request : Request) (posts : List Blog) :
    (handleRequest handler mockDatabase request posts).2 =
      if request.method = .GET then posts else posts ++ [newPost posts request] := by
  unfold handleRequest
  by_cases hget : request.method = .GET
  · rw [if_pos hget, if_pos hget]
    unfold handleGet
    simp only
    split_ifs
    · rfl
    · rfl
    · rfl
    · cases stoi ((request.uri.drop handler.locationPrefix.length).drop 1) <;> rfl
  · rw [if_neg hget, if_neg hget]
    rfl

theorem inOrder_append {posts : List Blog} (h : InOrder posts) (request : Request) :
    InOrder (posts ++ [newPost posts request]) := by
  intro i hi
  rw [List.length_append, List.length_singleton] at hi
  by_cases hlt : i < posts.length
  · rw [List.getElem_append_left hlt]
    exact h i hlt
  · obtain rfl : i = posts.length := by omega
    simp [newPost]

theorem inOrder_storeAfter (handler : BlogUploadHandler) (requests : List Request) :
    InOrder (storeAfter handler requests) := by
  induction requests using List.reverseRecOn with
  | nil =>
    intro i hi
    exact absurd hi (Nat.not_lt_zero i)
  | append_singleton requests request ih =>
    rw [storeAfter, List.foldl_append, List.foldl_cons, List.foldl_nil, ← storeAfter, handleRequest_store]
    split_ifs
    · exact ih
    · exact inOrder_append ih request

/-! ## Pages -/

/-- the end of the page of a post -/
theorem onePage_shown {blog : Blog} (h : 0 ≤ blog.postid) :
    SP :: (decimal blog.postid.toNat ++ ascii "</div></html>\n") <:+ onePage blog := by
  have hsign : ¬ blog.postid < 0 := by omega
  rw [onePage, if_neg hsign, Decimal.toString, if_neg hsign]
  have hlabel : ascii "</body>\n<div style=\"position: fixed;bottom: 0;right: 0;\">POSTID: " =
      ascii "</body>\n<div style=\"position: fixed;bottom: 0;right: 0;\">POSTID:" ++ [SP] := by decide +kernel
  apply List.suffix_append_of_suffix
  apply List.suffix_append_of_suffix
  refine ⟨ascii "</body>\n<div style=\"position: fixed;bottom: 0;right: 0;\">POSTID:", ?_⟩
  rw [hlabel, List.append_assoc, List.append_assoc, List.singleton_append]

/-- the end of the error page -/
theorem onePage_error {blog : Blog} (h : blog.postid < 0) : ascii "body>\n</html>\n" <:+ onePage blog := by
  rw [onePage, if_pos h]
  apply List.suffix_append_of_suffix
  apply List.suffix_append_of_suffix
  exact ⟨ascii "</", by decide⟩

/-- the digits before a given end, back to a blank -/
theorem digits_before {x y end' : Bytes} {m n : ℕ}
    (h : x ++ SP :: (decimal m ++ end') = y ++ SP :: (decimal n ++ end')) : m = n := by
  have hcancel : x ++ SP :: decimal m = y ++ SP :: decimal n := by
    refine List.append_cancel_right (?_ : _ ++ end' = _ ++ end')
    simpa using h
  have hdigits : ∀ (z : Bytes) (k : ℕ), ((z ++ SP :: decimal k).reverse.takeWhile isDigit) = (decimal k).reverse := by
    intro z k
    rw [List.reverse_append, List.reverse_cons, List.append_assoc, List.takeWhile_append_of_pos fun c hc =>
      isDigit_decimal k c (List.mem_reverse.1 hc)]
    simp [(by decide : isDigit SP = false)]
  have hreverse := congrArg (fun l : Bytes => l.reverse.takeWhile isDigit) hcancel
  simp only [hdigits] at hreverse
  exact decimal_injective (List.reverse_injective hreverse)

/-- **A page shows which post it is of.** -/
theorem onePage_postid {blog blog' : Blog} (h : 0 ≤ blog.postid) (heq : onePage blog' = onePage blog) :
    blog'.postid = blog.postid := by
  obtain ⟨x, hx⟩ := onePage_shown h
  by_cases hsign : blog'.postid < 0
  · obtain ⟨y, hy⟩ := onePage_error hsign
    rw [← hx, ← hy, List.append_cons, ← List.append_assoc] at heq
    have hend := (List.append_inj' heq (by decide)).2
    exact absurd hend (by decide)
  · obtain ⟨y, hy⟩ := onePage_shown (not_lt.1 hsign)
    rw [← hx, ← hy] at heq
    have := digits_before heq
    omega

/-! ## The GET of a location -/

/-- after a prefix of another kind, the id that was written is the id that is read -/
theorem handleGet_location {σ : Type} (handler : BlogUploadHandler) (db : Database σ) {k : ℕ} (hk : k < 2147483648)
    (s : σ) : handleGet handler db (handler.locationPrefix ++ ascii "/" ++ decimal k) s = handleGetOneBlog db k s := by
  have hne : decimal k ≠ [] := decimal_ne_nil k
  have hpos : 0 < (decimal k).length := List.length_pos_iff.2 hne
  have hnumber : isNumber (decimal k) = true := by
    unfold isNumber
    simpa [hne] using isDigit_decimal k
  rw [List.append_assoc, handleGet_under _ _ (by simp [ascii]; omega), show (ascii "/" ++ decimal k).drop 1 = decimal k
    from rfl, hnumber, stoi_decimal, narrow_natCast hk]
  rfl

/-- after a prefix that ends in '/', what is read of an id is less than the id -/
theorem handleGet_slash {σ : Type} (handler : BlogUploadHandler) (db : Database σ) {k : ℕ} (hk : k < 2147483648)
    (s : σ) :
    ∃ j : ℤ, j < k ∧ handleGet handler db (handler.locationPrefix ++ decimal k) s = handleGetOneBlog db j s := by
  by_cases hlong : 2 ≤ (decimal k).length
  · obtain ⟨c, ds, hds⟩ := List.exists_cons_of_ne_nil (decimal_ne_nil k)
    have hdigits : ∀ d ∈ ds, isDigit d = true := fun d hd => isDigit_decimal k d (by simp [hds, hd])
    have hlen : (decimal k).length = ds.length + 1 := by rw [hds, List.length_cons]
    have hne : ds ≠ [] := List.length_pos_iff.1 (by omega)
    have hnumber : isNumber ds = true := by
      unfold isNumber
      simpa [hne] using hdigits
    have hk0 : 0 < k := by
      by_contra hzero
      rw [show k = 0 by omega] at hlong
      exact absurd hlong (by decide)
    have hless : value ds < k := lt_of_lt_of_le (value_lt ds hdigits) (pow_le_of_length hk0 hlen)
    refine ⟨value ds, by exact_mod_cast hless, ?_⟩
    rw [handleGet_under _ _ hlong, show (decimal k).drop 1 = ds by rw [hds]; rfl, hnumber, stoi_of_digits hne hdigits,
      narrow_natCast (by omega)]
    rfl
  · refine ⟨-1, by omega, ?_⟩
    have hincludes : Bytes.includes (handler.locationPrefix ++ decimal k) (handler.locationPrefix ++ ascii "/") =
        false := by
      by_contra h
      rw [Bool.not_eq_false] at h
      have hpos : 0 < (decimal k).length := List.length_pos_iff.2 (decimal_ne_nil k)
      have heq := Bytes.includes_of_length_le (by simp [ascii]; omega) h
      have hslash := isDigit_decimal k SLASH (by rw [List.append_cancel_left heq]; decide)
      exact absurd hslash (by decide)
    unfold handleGet
    rw [if_neg (by simp), List.drop_left, hincludes]
    simp only [Bool.false_eq_true, if_false]
    rw [if_pos (Or.inl (by omega))]

/-- the post that a `mock_database` gives for a smaller id is another one -/
theorem getBlog_postid {posts : List Blog} (h : InOrder posts) {j k : ℤ} (hjk : j < k) (hk0 : 0 ≤ k)
    (hk : k < 2147483648) : (mockDatabase.getBlog j posts).1.postid ≠ k := by
  by_cases hj : j ≤ 0
  · simp only [mockDatabase, if_pos hj]
    omega
  · simp only [mockDatabase, if_neg hj]
    by_cases hlt : (j - 1).toNat < posts.length
    · rw [List.getD_eq_getElem _ _ hlt, h _ hlt, int32_of_range (by omega) (by omega)]
      omega
    · rw [List.getD_eq_default _ _ (by omega)]
      show (-1 : ℤ) ≠ k
      omega

/-! ## The round trip -/

/-- the GET whose URI is the Location of the answer to a POST is answered with the page of the post just inserted -/
def ShowsPost (handler : BlogUploadHandler) (posts : List Blog) (request : Request) : Prop :=
  ∃ response uri, (handleRequest handler mockDatabase request posts).1 = .ok response ∧
    response.headers.find? (ascii "Location") = some uri ∧ 0 ≤ (newPost posts request).postid ∧
    ∀ get : Request, get.method = .GET → get.uri = uri →
      (handleRequest handler mockDatabase get (handleRequest handler mockDatabase request posts).2).1 =
        .ok (htmlResponse StatusCode.ok (onePage (newPost posts request)))

/-- the id of the next post has not wrapped around, or it has and names a post with the very same page -/
def IdStands (posts : List Blog) (request : Request) : Prop :=
  posts.length + 1 < 2147483648 ∨
    0 < (newPost posts request).postid ∧ ∃ old, posts[((newPost posts request).postid - 1).toNat]? = some old ∧
      onePage old = onePage (newPost posts request)

/-- the Location of the answer to a POST -/
theorem postResponse_location (handler : BlogUploadHandler) (hne : handler.locationPrefix ≠ []) (postid : ℤ) :
    ∃ response, postResponse handler postid = .ok response ∧ response.headers.find? (ascii "Location") =
      some (if handler.locationPrefix.getLast? = some SLASH then handler.locationPrefix ++ Decimal.toString postid
        else handler.locationPrefix ++ ascii "/" ++ Decimal.toString postid) := by
  have hlast := List.getLast?_eq_some_getLast hne
  refine ⟨_, by rw [postResponse, hlast], ?_⟩
  rw [SortedMap.find?_insert_self, hlast]
  simp only [Option.some.injEq]

/-- the page that the GET of the location shows, where the id is read as it was written -/
theorem shown_iff {posts : List Blog} (request : Request) (hid : 0 ≤ (newPost posts request).postid) :
    onePage (mockDatabase.getBlog (newPost posts request).postid (posts ++ [newPost posts request])).1 =
      onePage (newPost posts request) ↔ IdStands posts request := by
  have hrange := int32_range (posts.length + 1)
  by_cases hsmall : posts.length + 1 < 2147483648
  · have hpostid : (newPost posts request).postid = posts.length + 1 := int32_of_range (by omega) (by omega)
    have hindex : ((posts.length : ℤ) + 1 - 1).toNat = posts.length := by omega
    refine iff_of_true ?_ (Or.inl hsmall)
    rw [hpostid]
    simp only [mockDatabase, if_neg (by omega : ¬ (posts.length : ℤ) + 1 ≤ 0), hindex]
    rw [List.getD_eq_getElem _ _ (by simp)]
    simp
  · by_cases hzero : (newPost posts request).postid ≤ 0
    · refine iff_of_false (fun h => ?_) ?_
      · have := onePage_postid hid h
        simp only [mockDatabase, if_pos hzero] at this
        omega
      · rintro (h | ⟨h, -⟩)
        · exact hsmall h
        · exact absurd h (not_lt.2 hzero)
    · have hindex : ((newPost posts request).postid - 1).toNat < posts.length := by
        have : (newPost posts request).postid < 2147483648 := hrange.2
        omega
      rw [IdStands, or_iff_right hsmall, List.getElem?_eq_getElem hindex]
      simp only [mockDatabase, if_neg hzero]
      rw [List.getD_eq_getElem _ _ (by simp; omega), List.getElem_append_left hindex]
      simp only [Option.some.injEq, exists_eq_left', (not_le.1 hzero), true_and]

theorem handleRequest_of_get {σ : Type} (handler : BlogUploadHandler) (db : Database σ) {get : Request}
    (hmethod : get.method = .GET) (s : σ) : handleRequest handler db get s = handleGet handler db get.uri s := by
  unfold handleRequest
  rw [if_pos hmethod]

theorem handleRequest_of_post (handler : BlogUploadHandler) {request : Request} (hmethod : request.method ≠ .GET)
    (posts : List Blog) : handleRequest handler mockDatabase request posts =
      (postResponse handler (newPost posts request).postid, posts ++ [newPost posts request]) := by
  unfold handleRequest
  rw [if_neg hmethod]
  rfl

/-- an id that stands is no negative number -/
theorem IdStands.postid_nonneg {posts : List Blog} {request : Request} (h : IdStands posts request) :
    0 ≤ (newPost posts request).postid := by
  rcases h with hsmall | ⟨hpos, -⟩
  · have hpostid : (newPost posts request).postid = posts.length + 1 := int32_of_range (by omega) (by omega)
    omega
  · exact hpos.le

/-- the location that answers a POST, for an id that is written without a sign -/
def locationOf (handler : BlogUploadHandler) (id : ℕ) : Bytes :=
  if handler.locationPrefix.getLast? = some SLASH then handler.locationPrefix ++ decimal id
  else handler.locationPrefix ++ ascii "/" ++ decimal id

/-- what is asked of the GET, once the POST is answered -/
theorem showsPost_iff {handler : BlogUploadHandler} (hne : handler.locationPrefix ≠ []) {posts : List Blog}
    {request : Request} (hmethod : request.method ≠ .GET) {id : ℕ} (hid : (newPost posts request).postid = id) :
    ShowsPost handler posts request ↔
      (handleGet handler mockDatabase (locationOf handler id) (posts ++ [newPost posts request])).1 =
        .ok (htmlResponse StatusCode.ok (onePage (newPost posts request))) := by
  obtain ⟨response, hresponse, hlocation⟩ := postResponse_location handler hne (newPost posts request).postid
  rw [hid, toString_natCast] at hlocation
  unfold ShowsPost
  simp only [handleRequest_of_post handler hmethod]
  constructor
  · rintro ⟨response', uri, hok, hfind, -, hall⟩
    obtain rfl := Except.ok.inj (hresponse.symm.trans hok)
    obtain rfl := Option.some.inj (hlocation.symm.trans hfind)
    have h := hall ⟨.GET, locationOf handler id, [], SortedMap.empty, []⟩ rfl rfl
    rwa [handleRequest_of_get _ _ rfl] at h
  · intro h
    refine ⟨response, locationOf handler id, hresponse, hlocation, by omega, fun get hget huri => ?_⟩
    rw [handleRequest_of_get _ _ hget, huri]
    exact h

/-- after a prefix that ends in '/' the GET shows another page -/
theorem not_shown_of_slash {handler : BlogUploadHandler} (hslash : handler.locationPrefix.getLast? = some SLASH)
    {posts : List Blog} {request : Request} (horder : InOrder (posts ++ [newPost posts request])) {id : ℕ}
    (hid : (newPost posts request).postid = id) :
    (handleGet handler mockDatabase (locationOf handler id) (posts ++ [newPost posts request])).1 ≠
      .ok (htmlResponse StatusCode.ok (onePage (newPost posts request))) := by
  intro hpage
  have hlt : (newPost posts request).postid < 2147483648 := (int32_range (posts.length + 1)).2
  obtain ⟨j, hj, heq⟩ := handleGet_slash handler mockDatabase (k := id) (by omega) (posts ++ [newPost posts request])
  rw [locationOf, if_pos hslash, heq] at hpage
  have hbody := congrArg Response.body (Except.ok.inj hpage)
  exact getBlog_postid horder (hj.trans_eq hid.symm) (by omega) hlt (onePage_postid (by omega) hbody)

/-- after a prefix of another kind it shows the page of the post with the id -/
theorem shown_of_noSlash {handler : BlogUploadHandler} (hslash : handler.locationPrefix.getLast? ≠ some SLASH)
    {posts : List Blog} {request : Request} {id : ℕ} (hid : (newPost posts request).postid = id) :
    (handleGet handler mockDatabase (locationOf handler id) (posts ++ [newPost posts request])).1 =
        .ok (htmlResponse StatusCode.ok (onePage (newPost posts request))) ↔ IdStands posts request := by
  have hlt : (newPost posts request).postid < 2147483648 := (int32_range (posts.length + 1)).2
  rw [locationOf, if_neg hslash, handleGet_location handler mockDatabase (k := id) (by omega), ← hid,
    ← shown_iff request (by omega)]
  constructor
  · intro h
    exact congrArg Response.body (Except.ok.inj h)
  · intro hpage
    unfold handleGetOneBlog
    simp only [hpage]

/-- **Post, redirect, get.** After any requests to the handler, the GET of the location that answers a POST shows the
id, the title and the body just inserted exactly when the prefix is not empty, does not end in '/', and the id stands
for the new post. -/
theorem postGet_iff (handler : BlogUploadHandler) (requests : List Request) (request : Request)
    (hpost : request.method = .POST) :
    ShowsPost handler (storeAfter handler requests) request ↔
      (handler.locationPrefix ≠ [] ∧ handler.locationPrefix.getLast? ≠ some SLASH) ∧
        IdStands (storeAfter handler requests) request := by
  have horder := inOrder_append (inOrder_storeAfter handler requests) request
  generalize storeAfter handler requests = posts at horder ⊢
  have hmethod : request.method ≠ .GET := by rw [hpost]; decide
  by_cases hne : handler.locationPrefix = []
  · refine iff_of_false ?_ fun h => h.1.1 hne
    intro ⟨response, uri, hok, _⟩
    rw [handleRequest_of_post handler hmethod, postResponse, hne] at hok
    cases hok
  by_cases hnonneg : 0 ≤ (newPost posts request).postid
  · obtain ⟨id, hid⟩ := Int.eq_ofNat_of_zero_le hnonneg
    rw [showsPost_iff hne hmethod hid]
    by_cases hslash : handler.locationPrefix.getLast? = some SLASH
    · exact iff_of_false (not_shown_of_slash hslash horder hid) fun h => h.1.2 hslash
    · rw [shown_of_noSlash hslash hid]
      exact (and_iff_right ⟨hne, hslash⟩).symm
  · refine iff_of_false ?_ fun h => hnonneg h.2.postid_nonneg
    intro ⟨_, _, _, _, h, _⟩
    exact hnonneg h

/-- a post with a title and a body -/
def helloPost : Request :=
  ⟨.POST, ascii "/blog/", ascii "HTTP/1.1", SortedMap.empty, ascii "submissiontitle=hello&submissionbody=world"⟩

/-- the first post under a location that ends in '/': the page after the redirect says that there is none -/
theorem postGet_slash : ¬ ShowsPost ⟨ascii "/blog/"⟩ (storeAfter ⟨ascii "/blog/"⟩ []) helloPost := by
  have hid : (newPost (storeAfter ⟨ascii "/blog/"⟩ []) helloPost).postid = (1 : ℕ) := rfl
  have horder := inOrder_append (inOrder_storeAfter ⟨ascii "/blog/"⟩ []) helloPost
  rw [showsPost_iff (by decide) (by decide) hid]
  exact not_shown_of_slash rfl horder hid

/-- the theorem at a location that does not -/
theorem postGet_iff_blog :
    ShowsPost ⟨ascii "/blog"⟩ (storeAfter ⟨ascii "/blog"⟩ [helloPost]) helloPost ↔
      (ascii "/blog" ≠ [] ∧ (ascii "/blog").getLast? ≠ some SLASH) ∧
        IdStands (storeAfter ⟨ascii "/blog"⟩ [helloPost]) helloPost :=
  postGet_iff ⟨ascii "/blog"⟩ [helloPost] helloPost rfl

end BlogServer.Posts
