/-
What `handle_request` of a blog makes of a request: which GET shows what, and which requests write.

`routedPage` is what a GET under the location is to show: the list of the posts, the post with the number that comes
after a slash, or else the page that says there is none. The source drops one byte before the number without a look at
it, and hands every string of digits to `stoi`, so it comes to that page exactly when the rest of the URI is not such a
number behind another byte, nor too large a one (`get_routed_iff`). Of the methods it tells only GET from the others.

- `handleGet_short`: the GETs that name no post.
- `get_routed_word`: `/blogs1` shows the first post.
- `writes_iff`: in a run over a `mock_database`, only POST requests write exactly when all the others are GETs.
-/
import BlogServer.Posts.PostRedirectGet

namespace BlogServer.Posts

open BlogServer.Byte BlogServer.Decimal BlogServer.Http

/-! ## What a GET is to show -/

/-- the number that comes after a slash, if there are only digits and an `int` holds it -/
def postNumber : Bytes → Option ℕ
  | [] => none
  | c :: digits => if c = SLASH ∧ isNumber digits = true ∧ value digits < 2147483648 then some (value digits) else none

/-- the page that says that there is no such post -/
def errorPage : Bytes := onePage ⟨-1, [], []⟩

theorem onePage_of_neg {blog : Blog} (h : blog.postid < 0) : onePage blog = errorPage := by
  rw [errorPage, onePage, onePage, if_pos h, if_pos (by decide)]

/-- a page of a post is not that page -/
theorem onePage_ne_errorPage {blog : Blog} (h : 0 ≤ blog.postid) : onePage blog ≠ errorPage := by
  intro heq
  have hsame : onePage ⟨-1, [], []⟩ = onePage blog := heq.symm
  have hpostid : (-1 : ℤ) = blog.postid := onePage_postid h hsame
  omega

section Database

variable {σ : Type} (db : Database σ)

/-- `get_blog` gives a post and not the sentinel -/
def HasPost (n : ℕ) (s : σ) : Prop := 0 ≤ (db.getBlog n s).1.postid

instance decidableHasPost (n : ℕ) (s : σ) : Decidable (HasPost db n s) := inferInstanceAs (Decidable (_ ≤ _))

/-- the page for what comes after the location in a URI -/
def routedPage (rest : Bytes) (s : σ) : Bytes :=
  if rest = [] ∨ rest = ascii "/" then allPage (db.getAllBlogs s).1
  else
    match postNumber rest with
    | none => errorPage
    | some n => if HasPost db n s then onePage (db.getBlog n s).1 else errorPage

/-- digits behind one byte, which are too many for an `int`, or are the id of a post though the byte is no slash -/
def Misrouted (rest : Bytes) (s : σ) : Prop :=
  ∃ c digits, rest = c :: digits ∧ isNumber digits = true ∧
    (2147483648 ≤ value digits ∨ c ≠ SLASH ∧ HasPost db (value digits) s)

/-! ## What it shows -/

variable (handler : BlogUploadHandler)

variable {db} in
theorem handleGetOneBlog_page (n : ℕ) (s : σ) :
    (handleGetOneBlog db n s).1 =
      .ok (htmlResponse StatusCode.ok (if HasPost db n s then onePage (db.getBlog n s).1 else errorPage)) := by
  unfold handleGetOneBlog
  by_cases hpost : HasPost db n s
  · rw [if_pos hpost]
  · rw [if_neg hpost, ← onePage_of_neg (not_le.1 hpost)]

theorem handleGetOneBlog_sentinel {s : σ} (hsentinel : (db.getBlog (-1) s).1.postid < 0) :
    (handleGetOneBlog db (-1) s).1 = .ok (htmlResponse StatusCode.ok errorPage) := by
  unfold handleGetOneBlog
  rw [← onePage_of_neg hsentinel]

/-- with at most one byte after the location, only none and a slash are the location -/
theorem handleGet_short {rest : Bytes} (hrest : rest.length ≤ 1) {s : σ}
    (hsentinel : (db.getBlog (-1) s).1.postid < 0) :
    (handleGet handler db (handler.locationPrefix ++ rest) s).1 =
      .ok (htmlResponse StatusCode.ok (routedPage db rest s)) := by
  have hnone : postNumber rest = none := by
    match rest, hrest with
    | [], _ => rfl
    | [c], _ => exact if_neg fun h => absurd h.2.1 (by decide)
  have hincludes : Bytes.includes (handler.locationPrefix ++ rest) (handler.locationPrefix ++ ascii "/") = true ↔
      rest = [] ∨ rest = ascii "/" := by
    constructor
    · intro h
      match rest, hrest with
      | [], _ => exact Or.inl rfl
      | [c], _ => exact Or.inr (List.append_cancel_left (Bytes.includes_of_length_le (by simp [ascii]) h))
    · intro h
      rcases h with rfl | rfl
      · exact Bytes.includes_of_prefix (by rw [List.append_nil]; exact List.prefix_append _ _)
      · exact Bytes.includes_of_prefix (List.prefix_refl _)
  unfold handleGet routedPage
  rw [if_neg (by simp), List.drop_left]
  by_cases hall : rest = [] ∨ rest = ascii "/"
  · rw [if_pos (hincludes.2 hall), if_pos hall]
    rfl
  · rw [if_neg (fun h => hall (hincludes.1 h)), if_neg hall, hnone, if_pos (Or.inl hrest)]
    exact handleGetOneBlog_sentinel db hsentinel

/-- **Which page a GET shows.** Under the location, for any rest of the URI: the list for none and for a slash, the post
whose number comes after a slash if there is one, and else the error page, exactly when the rest is not misrouted. -/
theorem get_routed_iff {s : σ} (hsentinel : (db.getBlog (-1) s).1.postid < 0) {request : Request}
    (hget : request.method = .GET) {rest : Bytes} (huri : request.uri = handler.locationPrefix ++ rest) :
    (handleRequest handler db request s).1 = .ok (htmlResponse StatusCode.ok (routedPage db rest s)) ↔
      ¬ Misrouted db rest s := by
  rw [handleRequest_of_get _ _ hget, huri]
  match rest with
  | [] =>
    refine iff_of_true (handleGet_short db handler (Nat.zero_le _) hsentinel) ?_
    rintro ⟨c, digits, heq, -⟩
    cases heq
  | [c] =>
    refine iff_of_true (handleGet_short db handler le_rfl hsentinel) ?_
    rintro ⟨d, digits, heq, hnumber, -⟩
    rw [← (List.cons.inj heq).2] at hnumber
    cases hnumber
  | c :: d :: digits =>
    have hpage : routedPage db (c :: d :: digits) s =
        match postNumber (c :: d :: digits) with
        | none => errorPage
        | some n => if HasPost db n s then onePage (db.getBlog n s).1 else errorPage := by
      unfold routedPage
      rw [if_neg (by simp [ascii])]
    have hmisrouted : Misrouted db (c :: d :: digits) s ↔ isNumber (d :: digits) = true ∧
        (2147483648 ≤ value (d :: digits) ∨ c ≠ SLASH ∧ HasPost db (value (d :: digits)) s) := by
      constructor
      · rintro ⟨c', digits', heq, h⟩
        obtain ⟨rfl, rfl⟩ := List.cons.inj heq
        exact h
      · intro h
        exact ⟨c, d :: digits, rfl, h⟩
    rw [handleGet_under handler db (by simp), hpage, hmisrouted, List.drop_one, List.tail_cons]
    by_cases hnumber : isNumber (d :: digits) = true
    · obtain ⟨hne, hdigits⟩ := isNumber_iff.1 hnumber
      rw [if_neg (by rw [hnumber]; decide), stoi_of_digits hne hdigits, postNumber]
      by_cases hlarge : 2147483648 ≤ value (d :: digits)
      · rw [narrow_none hlarge]
        refine iff_of_false ?_ fun h => h ⟨hnumber, Or.inl hlarge⟩
        intro h
        cases h
      · rw [narrow_natCast (not_le.1 hlarge)]
        simp only [handleGetOneBlog_page, hnumber, not_le.1 hlarge, and_true, true_and]
        by_cases hslash : c = SLASH
        · simp only [hslash, if_true, not_true, false_and, or_false, hlarge, not_false_eq_true, ne_eq]
        · by_cases hpost : HasPost db (value (d :: digits)) s
          · simp only [if_neg hslash, if_pos hpost]
            refine iff_of_false (fun h => ?_) fun h => h (Or.inr ⟨hslash, hpost⟩)
            exact onePage_ne_errorPage hpost (congrArg Response.body (Except.ok.inj h))
          · simp only [if_neg hslash, if_neg hpost]
            exact iff_of_true trivial fun h => h.elim hlarge fun h => hpost h.2
    · rw [if_pos (by simpa using hnumber), postNumber, if_neg fun h => hnumber h.2.1]
      exact iff_of_true (handleGetOneBlog_sentinel db hsentinel) fun h => hnumber h.1

end Database

/-- a GET of a URI -/
def getOf (uri : Bytes) : Request := ⟨.GET, uri, ascii "HTTP/1.1", SortedMap.empty, []⟩

/-- the location takes the URI of another word for its own -/
theorem get_routed_word :
    (handleRequest ⟨ascii "/blog"⟩ mockDatabase (getOf (ascii "/blogs1")) (storeAfter ⟨ascii "/blog"⟩ [helloPost])).1 ≠
      .ok (htmlResponse StatusCode.ok
        (routedPage mockDatabase (ascii "s1") (storeAfter ⟨ascii "/blog"⟩ [helloPost]))) := by
  have hpost : HasPost mockDatabase 1 (storeAfter ⟨ascii "/blog"⟩ [helloPost]) := by decide
  generalize storeAfter ⟨ascii "/blog"⟩ [helloPost] = posts at hpost ⊢
  have huri : (getOf (ascii "/blogs1")).uri = ascii "/blog" ++ ascii "s1" := rfl
  have hid : stoi ((ascii "s1").drop 1) = some 1 := rfl
  have hrouted : routedPage mockDatabase (ascii "s1") posts = errorPage := by
    unfold routedPage
    rw [if_neg (by decide)]
    rfl
  have hshown : (handleGetOneBlog mockDatabase 1 posts).1 =
      .ok (htmlResponse StatusCode.ok (onePage (mockDatabase.getBlog 1 posts).1)) := rfl
  rw [handleRequest_of_get _ _ rfl, huri, handleGet_under ⟨ascii "/blog"⟩ _ (by decide), if_neg (by decide), hid, hrouted]
  intro h
  exact onePage_ne_errorPage hpost (congrArg Response.body (Except.ok.inj (hshown.symm.trans h)))

/-- the theorem at the first post -/
theorem get_routed_first :
    (handleRequest ⟨ascii "/blog"⟩ mockDatabase (getOf (ascii "/blog/1")) (storeAfter ⟨ascii "/blog"⟩ [helloPost])).1 =
      .ok (htmlResponse StatusCode.ok
        (routedPage mockDatabase (ascii "/1") (storeAfter ⟨ascii "/blog"⟩ [helloPost]))) := by
  refine (get_routed_iff mockDatabase ⟨ascii "/blog"⟩ (by decide +kernel) rfl (by decide +kernel)).2 ?_
  rintro ⟨c, digits, heq, -, h⟩
  obtain ⟨rfl, rfl⟩ := List.cons.inj heq
  revert h
  decide +kernel

/-! ## Which requests write -/

/-- the posts of the POST requests, in order, under the ids that `insert_blog` gives -/
def postedBlogs (requests : List Request) : List Blog :=
  (requests.filter fun request => request.method = .POST).mapIdx fun i request =>
    ⟨int32 (i + 1), postedTitle request, postedBody request⟩

/-- a run stores one post for every POST request, and no other request writes -/
structure OnlyPostsWrite (handler : BlogUploadHandler) (requests : List Request) : Prop where
  stored : storeAfter handler requests = postedBlogs requests
  unchanged : ∀ before request after, requests = before ++ request :: after → request.method ≠ .POST →
    storeAfter handler (before ++ [request]) = storeAfter handler before

theorem storeAfter_snoc (handler : BlogUploadHandler) (requests : List Request) (request : Request) :
    storeAfter handler (requests ++ [request]) =
      if request.method = .GET then storeAfter handler requests
      else storeAfter handler requests ++ [newPost (storeAfter handler requests) request] := by
  rw [storeAfter, List.foldl_append, List.foldl_cons, List.foldl_nil, ← storeAfter, handleRequest_store]

theorem postedBlogs_snoc (requests : List Request) (request : Request) :
    postedBlogs (requests ++ [request]) =
      if request.method = .POST then postedBlogs requests ++ [newPost (postedBlogs requests) request]
      else postedBlogs requests := by
  unfold postedBlogs
  rw [List.filter_append]
  by_cases hpost : request.method = .POST
  · have hone : [request].filter (fun request => decide (request.method = .POST)) = [request] := by simp [hpost]
    rw [if_pos hpost, hone, List.mapIdx_concat, newPost, List.length_mapIdx]
  · have hnone : [request].filter (fun request => decide (request.method = .POST)) = [] := by simp [hpost]
    rw [if_neg hpost, hnone, List.append_nil]

/-- where no method is another than GET and POST, one post is stored for every POST -/
theorem storeAfter_posts {handler : BlogUploadHandler} {requests : List Request}
    (h : ∀ request ∈ requests, request.method = .GET ∨ request.method = .POST) :
    storeAfter handler requests = postedBlogs requests := by
  induction requests using List.reverseRecOn with
  | nil => rfl
  | append_singleton requests request ih =>
    have hbefore := ih fun r hr => h r (List.mem_append_left _ hr)
    rw [storeAfter_snoc, postedBlogs_snoc, hbefore]
    rcases h request (List.mem_append_right _ (List.mem_singleton_self _)) with hget | hpost
    · rw [if_pos hget, if_neg (by rw [hget]; decide)]
    · rw [if_pos hpost, if_neg (by rw [hpost]; decide)]

/-- **Which runs write only with POST**: those whose other requests are all GETs. -/
theorem writes_iff (handler : BlogUploadHandler) (requests : List Request) :
    OnlyPostsWrite handler requests ↔
      ∀ request ∈ requests, request.method = .GET ∨ request.method = .POST := by
  constructor
  · intro hwrites request hrequest
    obtain ⟨before, after, hsplit⟩ := List.append_of_mem hrequest
    by_contra hother
    obtain ⟨hget, hpost⟩ := not_or.1 hother
    have hsame := hwrites.unchanged before request after hsplit hpost
    rw [storeAfter_snoc, if_neg hget] at hsame
    have hlength := congrArg List.length hsame
    simp at hlength
  · intro h
    refine ⟨storeAfter_posts h, fun before request after hsplit hpost => ?_⟩
    have hget := (h request (by rw [hsplit]; simp)).resolve_right hpost
    rw [storeAfter_snoc, if_pos hget]

/-- a DELETE writes a post without a title and a body -/
theorem writes_delete :
    ¬ OnlyPostsWrite ⟨ascii "/blog"⟩ [⟨.DELETE, ascii "/blog/1", ascii "HTTP/1.1", SortedMap.empty, []⟩] := by
  intro h
  have hstored := h.stored
  revert hstored
  decide +kernel

end BlogServer.Posts
