/-
`blog_upload_request_handler`: posts are read and written through `class database`, whatever stands behind it.

A database is its three virtual functions on a state (`Database`). The state is passed on also when a call ends without
a response (`Fault`), since what was inserted by then stays inserted.

- `handleRequest_post`: a request that is not a GET inserts once, what the form says.
-/
import BlogServer.Posts.Form
import BlogServer.Http.ResponseHelper
import BlogServer.Config.NginxConfig

namespace BlogServer.Posts

open BlogServer.Byte BlogServer.Decimal BlogServer.Http BlogServer.Config

/-! ## Databases -/

/-- `struct Blog` -/
structure Blog where
  postid : ℤ
  title : Bytes
  body : Bytes
deriving DecidableEq, Repr

/-- `class database`, on the state of a database -/
structure Database (σ : Type) where
  insertBlog : Bytes → Bytes → σ → ℤ × σ
  getBlog : ℤ → σ → Blog × σ
  getAllBlogs : σ → List Blog × σ

/-- a database that also keeps the arguments of every `insert_blog` -/
def Database.recorded {σ : Type} (db : Database σ) : Database (σ × List (Bytes × Bytes)) where
  insertBlog title body s := ((db.insertBlog title body s.1).1, (db.insertBlog title body s.1).2, s.2 ++ [(title, body)])
  getBlog postid s := ((db.getBlog postid s.1).1, (db.getBlog postid s.1).2, s.2)
  getAllBlogs s := ((db.getAllBlogs s.1).1, (db.getAllBlogs s.1).2, s.2)

/-- `class mock_database`: `db_`, and `at` with the `int` made a `size_t` -/
def mockDatabase : Database (List Blog) where
  insertBlog title body posts := (int32 (posts.length + 1), posts ++ [⟨int32 (posts.length + 1), title, body⟩])
  getBlog postid posts := (if postid ≤ 0 then ⟨-1, [], []⟩ else posts.getD (postid - 1).toNat ⟨-1, [], []⟩, posts)
  getAllBlogs posts := (posts, posts)

/-! ## The handler -/

/-- what the constructor of `blog_database` connects with -/
structure Connection where
  dbname : Bytes
  user : Bytes
  password : Bytes
  hostaddr : Bytes
  port : Bytes

/-- `class blog_upload_request_handler`, without its database -/
structure BlogUploadHandler where
  locationPrefix : Bytes

/-- `blog_upload_request_handler::Init`; `none` is an exception of `at` -/
def BlogUploadHandler.init (locationPath : Bytes) (config : NginxConfig) : Option (BlogUploadHandler × Connection) := do
  let username ← config.blogUsernames.lookup locationPath
  let password ← config.blogPasswords.lookup locationPath
  let host ← config.blogIps.lookup locationPath
  let portNum ← config.blogPorts.lookup locationPath
  pure (⟨locationPath⟩, ⟨ascii "postgres", username, password, host, portNum⟩)

/-- how a call ends without a response -/
inductive Fault where
  /-- `substr` or `stoi` throws -/
  | outOfRange
  /-- `location_prefix_[location_prefix_.size() - 1]` of an empty prefix -/
  | undefined
deriving DecidableEq, Repr

/-- `is_number` -/
def isNumber (s : Bytes) : Bool := s ≠ [] && s.all isDigit

/-! ## Pages -/

/-- the page of `handle_get_one_blog` -/
def onePage (blog : Blog) : Bytes :=
  ascii "<!DOCTYPE html>\n<html>\n    <head>\n        <meta charset='utf-8'>\n" ++
  ascii "        <title>Blog Post</title>\n    </head>\n    <body style=\"text-align:center;\">\n      <h1>\n" ++
  if blog.postid < 0 then
    ascii "Error: Unable to get blog entry from id." ++ ascii "</h1>\n" ++
    ascii "<p>\nPlease use a valid id number</p>\n\n" ++ ascii "</body>\n</html>\n"
  else
    blog.title ++ ascii "</h1>\n" ++ (ascii "<p>\n" ++ blog.body ++ ascii "</p>\n") ++
    (ascii "</body>\n<div style=\"position: fixed;bottom: 0;right: 0;\">POSTID: " ++ Decimal.toString blog.postid ++
      ascii "</div></html>\n")

theorem onePage_head (blog : Blog) : (onePage blog).head? = some 60 := rfl

/-- a post on the page of `handle_get_all_blogs` -/
def pageEntry (blog : Blog) : Bytes :=
  ascii "<div>*****POSTID: " ++ Decimal.toString blog.postid ++ ascii "*****</div>" ++
  (ascii "<h1>\n" ++ blog.title ++ ascii "</h1>\n") ++ (ascii "<p>\n" ++ blog.body ++ ascii "</p>\n") ++
  ascii "<div>-------------------------------------------------------------------------------------</div>"

/-- the page of `handle_get_all_blogs` -/
def allPage (blogs : List Blog) : Bytes :=
  ascii "<!DOCTYPE html>\n<html>\n    <head>\n        <meta charset='utf-8'>\n" ++
  ascii "        <title>All Blogs</title>\n    </head>\n    <body style=\"text-align:center;\">\n" ++
  blogs.flatMap pageEntry ++ ascii "</body>\n</html>\n"

/-! ## `handle_request` -/

section Requests

variable {σ : Type} (handler : BlogUploadHandler) (db : Database σ)

/-- `handle_get_one_blog` -/
def handleGetOneBlog (postid : ℤ) (s : σ) : Except Fault Response × σ :=
  let (blog, s) := db.getBlog postid s
  (.ok (htmlResponse StatusCode.ok (onePage blog)), s)

/-- `handle_get_all_blogs` -/
def handleGetAllBlogs (s : σ) : Except Fault Response × σ :=
  let (blogs, s) := db.getAllBlogs s
  (.ok (htmlResponse StatusCode.ok (allPage blogs)), s)

/-- the response of `handle_post_blog` -/
def postResponse (postid : ℤ) : Except Fault Response :=
  match handler.locationPrefix.getLast? with
  | none => .error .undefined
  | some c =>
    let response := htmlResponse StatusCode.moved_temporarily []
    let location :=
      if c = SLASH then handler.locationPrefix ++ Decimal.toString postid
      else handler.locationPrefix ++ ascii "/" ++ Decimal.toString postid
    .ok { response with headers := response.headers.insert (ascii "Location") location }

/-- `handle_post_blog` -/
def handlePostBlog (title body : Bytes) (s : σ) : Except Fault Response × σ :=
  let (postid, s) := db.insertBlog title body s
  (postResponse handler postid, s)

/-- the GET branch of `handle_request` -/
def handleGet (uri : Bytes) (s : σ) : Except Fault Response × σ :=
  if uri.length < handler.locationPrefix.length then (.error .outOfRange, s)
  else
    let remainUri := uri.drop handler.locationPrefix.length
    if Bytes.includes uri (handler.locationPrefix ++ ascii "/") then handleGetAllBlogs db s
    else if remainUri.length ≤ 1 ∨ isNumber (remainUri.drop 1) = false then handleGetOneBlog db (-1) s
    else
      match stoi (remainUri.drop 1) with
      | none => (.error .outOfRange, s)
      | some postid => handleGetOneBlog db postid s

/-- `handle_request` -/
def handleRequest (request : Request) (s : σ) : Except Fault Response × σ :=
  -- what the loop returns on the body of every accepted message
  let formToValue := parseRequestBody (urldecode request.body)
  if request.method = .GET then handleGet handler db request.uri s
  else
    handlePostBlog handler db (formToValue.getD (ascii "submissiontitle") [])
      (formToValue.getD (ascii "submissionbody") []) s

/-- **A request that is not a GET inserts once**, the title and the body that the form has. -/
theorem handleRequest_post {request : Request} (hmethod : request.method ≠ .GET) (s : σ) :
    ((handleRequest handler db.recorded request (s, [])).2).2 =
      [((parseRequestBody (urldecode request.body)).getD (ascii "submissiontitle") [],
        (parseRequestBody (urldecode request.body)).getD (ascii "submissionbody") [])] := by
  unfold handleRequest
  rw [if_neg hmethod]
  rfl

/-- **A GET under the location** by two bytes or more: what follows the first of them is the id, if it is a number. -/
theorem handleGet_under {rest : Bytes} (hrest : 2 ≤ rest.length) (s : σ) :
    handleGet handler db (handler.locationPrefix ++ rest) s =
      if isNumber (rest.drop 1) = false then handleGetOneBlog db (-1) s
      else
        match stoi (rest.drop 1) with
        | none => (.error .outOfRange, s)
        | some postid => handleGetOneBlog db postid s := by
  have hincludes : Bytes.includes (handler.locationPrefix ++ rest) (handler.locationPrefix ++ ascii "/") = false := by
    by_contra h
    rw [Bool.not_eq_false] at h
    have heq := Bytes.includes_of_length_le (by simp [ascii]; omega) h
    rw [List.append_cancel_left heq] at hrest
    exact absurd hrest (by decide)
  unfold handleGet
  rw [if_neg (by simp), List.drop_left, hincludes]
  simp only [Bool.false_eq_true, if_false]
  by_cases hnumber : isNumber (rest.drop 1) = false
  · rw [if_pos (Or.inr hnumber), if_pos hnumber]
  · have hlong : ¬ (rest.length ≤ 1 ∨ isNumber (rest.drop 1) = false) :=
      not_or.2 ⟨by omega, hnumber⟩
    rw [if_neg hlong, if_neg hnumber]

end Requests

/-! ## Without a response -/

/-- a number that no `int` holds -/
def LargeNumber (s : Bytes) : Prop := isNumber s = true ∧ 2147483648 ≤ value s

/-- a request that `handle_request` does not return from: a GET of a number too large for `stoi`, a post of another kind
under the empty prefix -/
def Unanswered (handler : BlogUploadHandler) (request : Request) : Prop :=
  if request.method = .GET then LargeNumber ((request.uri.drop handler.locationPrefix.length).drop 1)
  else handler.locationPrefix = []

instance (s : Bytes) : Decidable (LargeNumber s) := inferInstanceAs (Decidable (_ ∧ _))

instance (handler : BlogUploadHandler) (request : Request) : Decidable (Unanswered handler request) :=
  inferInstanceAs (Decidable (if request.method = .GET then LargeNumber _ else _ = _))

theorem isNumber_iff {s : Bytes} : isNumber s = true ↔ s ≠ [] ∧ ∀ c ∈ s, isDigit c = true := by
  simp [isNumber]

theorem stoi_eq_none_iff {s : Bytes} (h : isNumber s = true) : stoi s = none ↔ LargeNumber s := by
  obtain ⟨hne, hdigits⟩ := isNumber_iff.1 h
  rw [stoi_of_digits hne hdigits]
  by_cases hlarge : 2147483648 ≤ value s
  · rw [narrow_none hlarge]
    exact ⟨fun _ => ⟨h, hlarge⟩, fun _ => rfl⟩
  · rw [narrow_natCast (not_le.1 hlarge)]
    exact ⟨fun hnone => absurd hnone (Option.some_ne_none _), fun hl => absurd hl.2 hlarge⟩

section Unanswered

variable {σ : Type} (handler : BlogUploadHandler) (db : Database σ)

/-- what the prefix and a slash contain leaves no room for a number -/
theorem not_largeNumber_of_includes {uri locationPrefix : Bytes}
    (h : Bytes.includes uri (locationPrefix ++ ascii "/") = true) :
    ¬ LargeNumber ((uri.drop locationPrefix.length).drop 1) := by
  obtain ⟨i, hi⟩ := Option.isSome_iff_exists.1 h
  have hle := Bytes.find_add_length_le hi
  have hnil : (uri.drop locationPrefix.length).drop 1 = [] := by
    rw [List.drop_drop, List.drop_eq_nil_iff]
    simp only [List.length_append, ascii] at hle
    simp at hle
    omega
  rintro ⟨hnumber, -⟩
  exact (isNumber_iff.1 hnumber).1 hnil

theorem handleGet_ok_iff {uri : Bytes} (hlength : handler.locationPrefix.length ≤ uri.length) (s : σ) :
    (∃ response, (handleGet handler db uri s).1 = .ok response) ↔
      ¬ LargeNumber ((uri.drop handler.locationPrefix.length).drop 1) := by
  unfold handleGet
  rw [if_neg (not_lt.2 hlength)]
  simp only
  split_ifs with hall hone
  · exact ⟨fun _ => not_largeNumber_of_includes hall, fun _ => ⟨_, rfl⟩⟩
  · refine ⟨fun _ hlarge => ?_, fun _ => ⟨_, rfl⟩⟩
    rcases hone with hshort | hnumber
    · refine (isNumber_iff.1 hlarge.1).1 (List.drop_eq_nil_iff.2 hshort)
    · rw [hlarge.1] at hnumber
      cases hnumber
  · have hnumber : isNumber ((uri.drop handler.locationPrefix.length).drop 1) = true := by
      have := (not_or.1 hone).2
      simpa using this
    rw [← stoi_eq_none_iff hnumber]
    cases stoi ((uri.drop handler.locationPrefix.length).drop 1) with
    | none => simp
    | some postid => exact ⟨fun _ => Option.some_ne_none _, fun _ => ⟨_, rfl⟩⟩

/-- the body of every page starts with `<` -/
theorem handleGet_head {uri : Bytes} {s : σ} {response : Response}
    (h : (handleGet handler db uri s).1 = .ok response) : response.body.head? = some 60 := by
  unfold handleGet at h
  simp only at h
  split_ifs at h
  · rw [← Except.ok.inj h]
    rfl
  · rw [← Except.ok.inj h]
    exact onePage_head _
  · cases hid : stoi ((uri.drop handler.locationPrefix.length).drop 1) with
    | none =>
      rw [hid] at h
      cases h
    | some postid =>
      rw [hid] at h
      rw [← Except.ok.inj h]
      exact onePage_head _

/-- **When a response is returned**, for a URI that is no shorter than the prefix. -/
theorem handleRequest_ok_iff {request : Request} (hlength : handler.locationPrefix.length ≤ request.uri.length)
    (s : σ) : (∃ response, (handleRequest handler db request s).1 = .ok response) ↔ ¬ Unanswered handler request := by
  unfold handleRequest Unanswered
  split_ifs with hget
  · exact handleGet_ok_iff handler db hlength s
  · unfold handlePostBlog postResponse
    simp only
    cases hlast : handler.locationPrefix.getLast? with
    | none => simp [List.getLast?_eq_none_iff.1 hlast]
    | some c =>
      have hne : handler.locationPrefix ≠ [] := by
        intro hnil
        rw [hnil] at hlast
        cases hlast
      exact ⟨fun _ => hne, fun _ => ⟨_, rfl⟩⟩

end Unanswered

end BlogServer.Posts
