/-
What a submitted post comes to.

The upload form sends `submissiontitle=<title>&submissionbody=<body>` with title and body encoded. The handler decodes
the whole body before it splits it, so a delimiter that was encoded splits as one that was not: what is inserted is what
was written exactly when neither text has a `=` or a `&` in it (`submission_iff`). The loop that splits it counts with
an `int`, which is enough for the body of every request (`parseRequestBodyLoop_carried`).

- `submission_equals`: a title with a `=` loses it.
-/
import BlogServer.Posts.FormSplitting
import BlogServer.Posts.UploadHandler

namespace BlogServer.Posts

open BlogServer.Byte BlogServer.Http

/-- the body of a request that the upload form sends -/
def submission (title body : Bytes) : Bytes :=
  ascii "submissiontitle=" ++ urlencode title ++ ascii "&submissionbody=" ++ urlencode body

/-! ## Decoding a submission -/

theorem EncodedAs.append {e s e' s' : Bytes} (h : EncodedAs e s) (h' : EncodedAs e' s') :
    EncodedAs (e ++ e') (s ++ s') := by
  induction h with
  | nil => exact h'
  | literal hplus hpercent _ ih => exact .literal hplus hpercent ih
  | space _ ih => exact .space ih
  | percent h1 h2 _ ih => exact .percent h1 h2 ih

/-- text in which nothing needs decoding -/
theorem encodedAs_self {s : Bytes} (h : ∀ c ∈ s, c ≠ PLUS ∧ c ≠ PERCENT) : EncodedAs s s := by
  induction s with
  | nil => exact .nil
  | cons c s ih =>
    obtain ⟨hplus, hpercent⟩ := h c List.mem_cons_self
    exact .literal hplus hpercent (ih fun d hd => h d (List.mem_cons_of_mem c hd))

/-- the names of the two fields of the form -/
abbrev titleKey : Bytes := ascii "submissiontitle"

abbrev bodyKey : Bytes := ascii "submissionbody"

theorem urldecode_submission (title body : Bytes) :
    urldecode (submission title body) = pair titleKey title ++ AMP :: pair bodyKey body := by
  have hencoded : EncodedAs (submission title body)
      (ascii "submissiontitle=" ++ title ++ ascii "&submissionbody=" ++ body) := by
    refine ((EncodedAs.append ?_ (encodedAs_urlencode title)).append ?_).append (encodedAs_urlencode body)
    · exact encodedAs_self (by decide)
    · exact encodedAs_self (by decide)
  have hdecode := urldecode_of_encodedAs hencoded []
  rw [List.append_nil] at hdecode
  rw [hdecode]
  simp [pair, ascii, urldecode]

/-! ## What is inserted -/

/-- the form of clean texts says what was written -/
theorem form_clean {title body : Bytes} (htitle : Clean title) (hbody : Clean body) :
    (parseRequestBody (urldecode (submission title body))).getD titleKey [] = title ∧
      (parseRequestBody (urldecode (submission title body))).getD bodyKey [] = body := by
  have hkeys : Clean titleKey ∧ Clean bodyKey := by unfold Clean; decide
  have hpairs := parseRequestBody_pairs (titleKey, title) [(bodyKey, body)] fun q hq => by
    rcases List.mem_cons.1 hq with rfl | hq
    · exact ⟨hkeys.1, htitle⟩
    · rw [List.mem_singleton.1 hq]
      exact ⟨hkeys.2, hbody⟩
  have hform : parseRequestBody (urldecode (submission title body)) =
      (SortedMap.empty.insert titleKey title).insert bodyKey body := by
    rw [urldecode_submission, ← List.append_nil (AMP :: pair bodyKey body)]
    exact hpairs
  rw [hform]
  constructor
  · rw [SortedMap.getD, SortedMap.find?_insert_of_ne _ _ (by decide), SortedMap.find?_insert_self]
    rfl
  · rw [SortedMap.getD, SortedMap.find?_insert_self]
    rfl

/-- what the form says is clean -/
theorem getD_clean (body : Bytes) (key : Bytes) : Clean ((parseRequestBody body).getD key []) := by
  rw [SortedMap.getD]
  cases hfind : (parseRequestBody body).find? key with
  | none => exact clean_nil
  | some v => exact parseRequestBody_clean body hfind

/-- **When a submitted post is the one that was written.** A POST of the form inserts exactly once, and exactly the
title and the body, if and only if neither of them has a `=` or a `&` in it. -/
theorem submission_iff {σ : Type} (handler : BlogUploadHandler) (db : Database σ) (s : σ) (request : Request)
    (title body : Bytes) :
    ((handleRequest handler db.recorded { request with method := .POST, body := submission title body } (s, [])).2).2 =
        [(title, body)] ↔
      (EQUALS ∉ title ∧ AMP ∉ title) ∧ (EQUALS ∉ body ∧ AMP ∉ body) := by
  rw [handleRequest_post _ _ (by simp)]
  constructor
  · intro h
    obtain ⟨htitle, hbody⟩ := Prod.mk.inj (List.singleton_injective h)
    have hclean := And.intro (getD_clean (urldecode (submission title body)) titleKey)
      (getD_clean (urldecode (submission title body)) bodyKey)
    rw [htitle, hbody] at hclean
    exact hclean
  · rintro ⟨htitle, hbody⟩
    obtain ⟨hreadTitle, hreadBody⟩ := form_clean htitle hbody
    rw [hreadTitle, hreadBody]

/-- a title with a `=` in it -/
theorem submission_equals :
    ((handleRequest ⟨ascii "/blog"⟩ mockDatabase.recorded
        ⟨.POST, ascii "/blog", ascii "HTTP/1.1", SortedMap.empty, submission (ascii "1+1=2") (ascii "so")⟩ ([], [])).2).2 ≠
      [(ascii "1+1=2", ascii "so")] := by
  decide +kernel

end BlogServer.Posts
