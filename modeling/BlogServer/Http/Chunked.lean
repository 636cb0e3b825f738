/-
Chunked responses: the grammar of what an upstream sends, and what the response parser makes of it.

The grammar names no state of the parser: a status line, header lines and folded continuations (as in requests), chunks
of a size line and data, and the empty chunk. One run lemma per part; in a chunk the countdown is the invariant, and the
CR that ends it is told from a CR in the data by the countdown alone.

- `reads_lines`: a header section leaves its headers, unfolded, and knows of chunks once a header has announced them.
- `reads_chunk`: a chunk adds its data to the body, whatever bytes they are.
- `chunked_body`: all of it, cut anywhere before the CR of the empty chunk, ends with good and the data of the chunks.
-/
import BlogServer.Http.RequestGrammar
import BlogServer.Http.ResponseLoop

namespace BlogServer.Http

open BlogServer.Byte BlogServer.Scan BlogServer.Decimal

/-- the name that a line gives a header -/
def HeaderLine.fieldName : HeaderLine → Option Bytes
  | .field name .. => some name
  | .folded .. => none

namespace ResponseParser

/-! ## The grammar -/

/-- a status line: the two numbers of the version, three digits and a reason phrase -/
structure StatusLine where
  major : Bytes
  minor : Bytes
  hundreds : UInt8
  tens : UInt8
  ones : UInt8
  reason : Bytes
  major_ne : major ≠ []
  major_digit : ∀ c ∈ major, isDigit c = true
  minor_ne : minor ≠ []
  minor_digit : ∀ c ∈ minor, isDigit c = true
  hundreds_ok : 49 ≤ hundreds ∧ hundreds ≤ 53
  tens_digit : isDigit tens = true
  ones_digit : isDigit ones = true
  reason_ok : ∀ c ∈ reason, isReason c = true

/-- the status line on the wire, its CR LF included -/
def StatusLine.text (l : StatusLine) : Bytes :=
  ascii "HTTP/" ++ (l.major ++ DOT :: (l.minor ++ SP :: ([l.hundreds, l.tens, l.ones, SP] ++ (l.reason ++ CRLF))))

/-- the headers of a header section: a continuation goes on with the value before it, without its leading blanks -/
def addLine (hs : List Header) : HeaderLine → List Header
  | .field name value .. => hs ++ [⟨name, value⟩]
  | .folded _ content .. => hs.modifyLast fun h => { h with value := h.value ++ content.dropWhile (· == SP) }

def unfold (lines : List HeaderLine) : List Header := lines.foldl addLine []

/-- after some line, the header it belongs to is `Transfer-Encoding: chunked` -/
def AnnouncesChunks (lines : List HeaderLine) : Prop :=
  ∃ seen, seen <+: lines ∧ ∃ h ∈ (unfold seen).getLast?, isChunked h = true

/-- the number that hexadecimal digits denote -/
def hexValue (s : Bytes) : ℕ := s.foldl (fun v c => v * 16 + hexDigitValue c) 0

/-- a chunk: its size, in any hexadecimal spelling, and its data -/
structure Chunk where
  size : Bytes
  data : Bytes
  size_hex : ∀ c ∈ size, isHex c = true
  size_eq : hexValue size = data.length
  data_ne : data ≠ []
  data_lt : data.length < 2147483648

/-- a chunk on the wire -/
def Chunk.text (c : Chunk) : Bytes := c.size ++ CRLF ++ (c.data ++ CRLF)

/-- a chunked response on the wire, up to the size of the empty chunk -/
def chunkedHead (status : StatusLine) (lines : List HeaderLine) (chunks : List Chunk) (zeros : Bytes) : Bytes :=
  status.text ++ (linesText lines ++ (CRLF ++ (chunks.flatMap Chunk.text ++ zeros)))

/-! ## The status line -/

/-- no header and no body yet -/
def Blank (b : ResponseBuilder) : Prop := b.headers = [] ∧ b.body = [] ∧ b.chunked = false

theorem reads_digits {st : State} (hst : st = .httpVersionMajor ∨ st = .httpVersionMinor) {w : Bytes}
    (hw : ∀ c ∈ w, isDigit c = true) {b : ResponseBuilder} (hb : Blank b) :
    ∃ b', Reads consume (st, b) w (st, b') ∧ Blank b' := by
  have hstep : ∀ s : St, ∀ c ∈ w, s.1 = st ∧ Blank s.2 → ∃ s', consume s c = (.indeterminate, s') ∧ s'.1 = st ∧
      Blank s'.2 := by
    rintro ⟨st', b'⟩ c hc ⟨hst', hb'⟩
    obtain rfl : st' = st := hst'
    have hdigit := hw c hc
    rcases hst with rfl | rfl
    · refine ⟨(.httpVersionMajor, _),
        by simp only [consume]; rw [if_neg (isDigit_ne hdigit (by decide)), if_pos hdigit], rfl, ?_⟩
      exact hb'
    · refine ⟨(.httpVersionMinor, _),
        by simp only [consume]; rw [if_neg (isDigit_ne hdigit (by decide)), if_pos hdigit], rfl, ?_⟩
      exact hb'
  obtain ⟨⟨st', b'⟩, hr, rfl, hb'⟩ := Reads.keep (fun s : St => s.1 = st ∧ Blank s.2) hstep (s := (st, b)) ⟨rfl, hb⟩
  exact ⟨b', hr, hb'⟩

/-- a number of the version, up to the byte after it -/
theorem reads_number {st next : State} (hst : st = .httpVersionMajor ∧ next = .httpVersionMajorStart ∨
    st = .httpVersionMinor ∧ next = .httpVersionMinorStart) {w : Bytes} (hne : w ≠ [])
    (hw : ∀ c ∈ w, isDigit c = true) {b : ResponseBuilder} (hb : Blank b) :
    ∃ b', Reads consume (next, b) w (st, b') ∧ Blank b' := by
  obtain ⟨c, w, rfl⟩ := List.exists_cons_of_ne_nil hne
  have hfirst : ∃ b', consume (next, b) c = (.indeterminate, st, b') ∧ Blank b' := by
    have hdigit := hw c List.mem_cons_self
    rcases hst with ⟨rfl, rfl⟩ | ⟨rfl, rfl⟩
    · refine ⟨_, by simp only [consume]; rw [if_pos hdigit], ?_⟩
      exact hb
    · refine ⟨_, by simp only [consume]; rw [if_pos hdigit], ?_⟩
      exact hb
  obtain ⟨b₁, h₁, hb₁⟩ := hfirst
  obtain ⟨b₂, h₂, hb₂⟩ := reads_digits (hst.imp And.left And.left) (fun d hd => hw d (List.mem_cons_of_mem c hd)) hb₁
  exact ⟨b₂, .cons h₁ h₂, hb₂⟩

/-- **The status line.** -/
theorem reads_status (status : StatusLine) (u : ResponseUninit) :
    ∃ b, Reads consume (fresh u) status.text (.headerLineStart, b) ∧ Blank b := by
  have hhttp : ∃ b, Reads consume (fresh u) (ascii "HTTP/") (.httpVersionMajorStart, b) ∧ Blank b :=
    ⟨_, by simp [Reads, feed, consume, fresh, ascii]; rfl, rfl, rfl, rfl⟩
  obtain ⟨b₁, h₁, hb₁⟩ := hhttp
  obtain ⟨b₂, h₂, hb₂⟩ := reads_number (Or.inl ⟨rfl, rfl⟩) status.major_ne status.major_digit hb₁
  have hdot : Reads consume (.httpVersionMajor, b₂) [DOT]
      (.httpVersionMinorStart, { b₂ with fullmessage := b₂.fullmessage ++ [DOT] }) := by simp [Reads, feed, consume]
  obtain ⟨b₃, h₃, hb₃⟩ := reads_number (b := { b₂ with fullmessage := b₂.fullmessage ++ [DOT] }) (Or.inr ⟨rfl, rfl⟩)
    status.minor_ne status.minor_digit hb₂
  have hspace : Reads consume (.httpVersionMinor, b₃) [SP]
      (.statusCode1, { b₃ with fullmessage := b₃.fullmessage ++ [SP] }) := by simp [Reads, feed, consume]
  have hcode := reads_code (x := status.hundreds) (by simpa using status.hundreds_ok) status.tens_digit
    status.ones_digit { b₃ with fullmessage := b₃.fullmessage ++ [SP] }
  have hreason := reads_reason status.reason_ok { b₃ with
    code := int32 (int32 (((status.hundreds.toNat : ℤ) - 48) * 10 + (status.tens.toNat : ℤ) - 48) * 10 +
      (status.ones.toNat : ℤ) - 48)
    fullmessage := b₃.fullmessage ++ [SP] ++ [status.hundreds, status.tens, status.ones, SP] }
  have hall := h₁.append (h₂.append (hdot.append (h₃.append (hspace.append (hcode.append hreason)))))
  refine ⟨_, by simpa [StatusLine.text] using hall, ?_⟩
  exact hb₃

/-! ## The header section -/

theorem unfold_snoc (lines : List HeaderLine) (l : HeaderLine) :
    unfold (lines ++ [l]) = addLine (unfold lines) l := by
  simp [unfold]

/-- some prefix, when the list grows by an element -/
theorem exists_prefix_snoc {α : Type} {P : List α → Prop} {l : List α} {a : α} :
    (∃ seen, seen <+: l ++ [a] ∧ P seen) ↔ (∃ seen, seen <+: l ∧ P seen) ∨ P (l ++ [a]) := by
  constructor
  · intro h
    obtain ⟨seen, hseen, hP⟩ := h
    rcases List.prefix_concat_iff.1 hseen with rfl | hseen
    · exact Or.inr hP
    · exact Or.inl ⟨seen, hseen, hP⟩
  · intro h
    rcases h with ⟨seen, hseen, hP⟩ | hP
    · exact ⟨seen, hseen.trans (List.prefix_append _ _), hP⟩
    · exact ⟨l ++ [a], List.prefix_refl _, hP⟩

theorem announcesChunks_snoc {lines : List HeaderLine} {l : HeaderLine} :
    AnnouncesChunks (lines ++ [l]) ↔
      AnnouncesChunks lines ∨ ∃ h ∈ (unfold (lines ++ [l])).getLast?, isChunked h = true := exists_prefix_snoc

theorem headField_of_append {lines : List HeaderLine} {l : HeaderLine} (h : HeadField (lines ++ [l])) :
    HeadField lines := by
  cases lines with
  | nil => simp [HeadField]
  | cons a lines => exact h

theorem addLine_ne_nil {hs : List Header} (hne : hs ≠ []) (l : HeaderLine) : addLine hs l ≠ [] := by
  obtain ⟨hs, h, rfl⟩ := (List.eq_nil_or_concat hs).resolve_left hne
  rw [List.concat_eq_append]
  cases l with
  | field name value => simp [addLine]
  | folded blank content => simp [addLine, List.modifyLast_concat]

/-- where a line can be a continuation there is a header to go on with -/
theorem unfold_ne_nil {lines : List HeaderLine} (hhead : HeadField lines) (hne : lines ≠ []) : unfold lines ≠ [] := by
  induction lines using List.reverseRecOn with
  | nil => exact absurd rfl hne
  | append_singleton lines l ih =>
    rw [unfold_snoc]
    by_cases hl : lines = []
    · subst hl
      cases l with
      | field name value => simp [unfold, addLine]
      | folded blank content => simp [HeadField, HeaderLine.isField] at hhead
    · exact addLine_ne_nil (ih (headField_of_append hhead) hl) l

/-- the headers have the names that lines give them -/
theorem unfold_names {lines : List HeaderLine} {P : Bytes → Prop} (h : ∀ l ∈ lines, ∀ name ∈ l.fieldName, P name) :
    ∀ x ∈ unfold lines, P x.name := by
  induction lines using List.reverseRecOn with
  | nil => simp [unfold]
  | append_singleton lines l ih =>
    have hbefore := ih fun l' hl' => h l' (List.mem_append_left _ hl')
    rw [unfold_snoc]
    cases l with
    | field name value hn ht hv =>
      intro x hx
      rcases List.mem_append.1 hx with hx | hx
      · exact hbefore x hx
      · rw [List.mem_singleton.1 hx]
        exact h (.field name value hn ht hv) (by simp) name rfl
    | folded blank content hn hb hc =>
      rcases List.eq_nil_or_concat (unfold lines) with hnil | ⟨hs, y, hy⟩
      · simp [addLine, hnil, List.modifyLast, List.modifyLast.go]
      · rw [List.concat_eq_append] at hy
        rw [hy] at hbefore
        simp only [addLine, hy, List.modifyLast_concat]
        intro x hx
        rcases List.mem_append.1 hx with hx | hx
        · exact hbefore x (List.mem_append_left _ hx)
        · rw [List.mem_singleton.1 hx]
          exact hbefore y (by simp)

/-- what a builder knows after some lines of a header section -/
structure InHeaders (b : ResponseBuilder) (lines : List HeaderLine) : Prop where
  headers : b.headers = unfold lines
  body : b.body = []
  chunked : AnnouncesChunks lines → b.chunked = true

/-- the end of a line that gives no size -/
theorem reads_lineClose {b : ResponseBuilder} {hs : List Header} {h : Header} (hb : b.headers = hs ++ [h])
    (hl : isContentLength h.name = false) :
    ∃ b', Reads consume (.headerValue, b) CRLF (.headerLineStart, b') ∧ b'.headers = b.headers ∧ b'.body = b.body ∧
      b'.chunked = (b.chunked || isChunked h) := by
  have hback : RequestParser.back b.headers = h := by rw [hb, RequestParser.back_append]
  obtain ⟨k, f, hr⟩ := reads_lineEnd (b := b) (n := b.contentsize) (by simp [announce, hback, hl])
  rw [hback] at hr
  exact ⟨_, hr, rfl, rfl, rfl⟩

theorem inHeaders_snoc {b b' : ResponseBuilder} {lines : List HeaderLine} {l : HeaderLine} (hb : InHeaders b lines)
    {h : Header} (hheaders : b'.headers = unfold (lines ++ [l])) (hlast : (unfold (lines ++ [l])).getLast? = some h)
    (hbody : b'.body = b.body) (hchunked : b'.chunked = (b.chunked || isChunked h)) : InHeaders b' (lines ++ [l]) where
  headers := hheaders
  body := hbody.trans hb.body
  chunked hann := by
    rw [hchunked, Bool.or_eq_true]
    rcases announcesChunks_snoc.1 hann with hbefore | ⟨h', hmem, hnow⟩
    · exact Or.inl (hb.chunked hbefore)
    · rw [hlast] at hmem
      obtain rfl : h = h' := by simpa using hmem
      exact Or.inr hnow

/-- the blanks of a continuation -/
theorem reads_blanks {blank : Bytes} (hne : blank ≠ []) (hblank : ∀ c ∈ blank, c = SP ∨ c = HT) {b : ResponseBuilder}
    (hb : b.headers ≠ []) :
    ∃ f, Reads consume (.headerLineStart, b) blank (.headerLws, { b with fullmessage := f }) := by
  obtain ⟨c, blank, rfl⟩ := List.exists_cons_of_ne_nil hne
  have hfirst : consume (.headerLineStart, b) c =
      (.indeterminate, .headerLws, { b with fullmessage := b.fullmessage ++ [c] }) := by
    rcases hblank c List.mem_cons_self with rfl | rfl <;>
      simp [consume, hb, (by decide : SP ≠ CR), (by decide : HT ≠ CR)]
  have hloop : Reads consume _ blank _ := Reads.loop_mem
    (fun u => (.headerLws, { b with fullmessage := b.fullmessage ++ c :: u }))
    fun u a ha => by
      rcases hblank a (List.mem_cons_of_mem c ha) with rfl | rfl <;>
        simp [consume, (by decide : SP ≠ CR), (by decide : HT ≠ CR)]
  exact ⟨_, .cons hfirst hloop⟩

/-- the text of a continuation, blanks at its start apart, goes into the value -/
theorem reads_content {content : Bytes} (hcontent : ∀ c ∈ content, isCtl c = false) {b : ResponseBuilder}
    {hs : List Header} {name value : Bytes} (hb : b.headers = hs ++ [⟨name, value⟩]) :
    ∃ f, Reads consume (.headerLws, b) content
      (if content.dropWhile (· == SP) = [] then .headerLws else .headerValue,
        { b with headers := hs ++ [⟨name, value ++ content.dropWhile (· == SP)⟩], fullmessage := f }) := by
  induction content generalizing b with
  | nil => exact ⟨b.fullmessage, by simpa [← hb] using Reads.nil _⟩
  | cons c content ih =>
    have hctl := hcontent c List.mem_cons_self
    by_cases hsp : c = SP
    · have hblank : consume (.headerLws, b) c =
          (.indeterminate, .headerLws, { b with fullmessage := b.fullmessage ++ [c] }) := by
        simp [consume, hsp, (by decide : SP ≠ CR)]
      obtain ⟨f, hr⟩ := ih (fun d hd => hcontent d (List.mem_cons_of_mem c hd))
        (b := { b with fullmessage := b.fullmessage ++ [c] }) hb
      refine ⟨f, .cons hblank ?_⟩
      rw [List.dropWhile_cons_of_pos (by simp [hsp])]
      exact hr
    · have hvalue : consume (.headerLws, b) c = (.indeterminate, .headerValue,
          { b with headers := hs ++ [⟨name, value ++ [c]⟩], fullmessage := b.fullmessage ++ [c] }) := by
        have hcr : c ≠ CR := isCtl_ne hctl (by decide)
        have hht : c ≠ HT := isCtl_ne hctl (by decide)
        simp [consume, hcr, hht, hsp, hctl, hb, List.modifyLast_concat]
      have hloop : Reads consume _ content _ := Reads.loop_mem
        (fun u => (.headerValue, { b with
          headers := hs ++ [⟨name, value ++ c :: u⟩]
          fullmessage := b.fullmessage ++ c :: u }))
        fun u a ha => by
          have hv := hcontent a (List.mem_cons_of_mem c ha)
          simp [consume, hv, isCtl_ne hv (d := CR) (by decide), List.modifyLast_concat]
      rw [List.dropWhile_cons_of_neg (by simp [hsp]), if_neg (by simp)]
      exact ⟨_, .cons hvalue hloop⟩

/-- **A line of the header section.** -/
theorem reads_line {lines : List HeaderLine} {l : HeaderLine} (hhead : HeadField (lines ++ [l]))
    (hlength : ∀ h ∈ unfold (lines ++ [l]), isContentLength h.name = false) {b : ResponseBuilder}
    (hb : InHeaders b lines) :
    ∃ b', Reads consume (.headerLineStart, b) (l.text ++ CRLF) (.headerLineStart, b') ∧ InHeaders b' (lines ++ [l]) := by
  rw [unfold_snoc] at hlength
  cases l with
  | field name value hn ht hv =>
    have hline := reads_header ⟨hn, ht, hv⟩ (h := ⟨name, value⟩) b
    obtain ⟨b', hclose, hheaders, hbody, hchunked⟩ := reads_lineClose (b := { b with
      headers := b.headers ++ [⟨name, value⟩]
      fullmessage := b.fullmessage ++ (name ++ ascii ": " ++ value) }) rfl (hlength ⟨name, value⟩ (by simp [addLine]))
    refine ⟨b', ?_, inHeaders_snoc hb (h := ⟨name, value⟩) ?_ ?_ hbody hchunked⟩
    · have hall := hline.append hclose
      rwa [show name ++ ascii ": " ++ value = name ++ COLON :: SP :: value by simp [ascii, COLON, SP]] at hall
    · rw [hheaders, unfold_snoc, addLine, hb.headers]
    · rw [unfold_snoc, addLine, List.getLast?_concat]
  | folded blank content hn hbl hc =>
    have hlines : lines ≠ [] := by
      rintro rfl
      simp [HeadField, HeaderLine.isField] at hhead
    have hne := unfold_ne_nil (headField_of_append hhead) hlines
    obtain ⟨hs, ⟨name, value⟩, hlast⟩ := (List.eq_nil_or_concat (unfold lines)).resolve_left hne
    rw [List.concat_eq_append] at hlast
    have hadd : addLine (unfold lines) (.folded blank content hn hbl hc) =
        hs ++ [⟨name, value ++ content.dropWhile (· == SP)⟩] := by
      rw [hlast]
      simp [addLine, List.modifyLast_concat]
    obtain ⟨f, hblanks⟩ := reads_blanks hn hbl (b := b) (by rw [hb.headers]; exact hne)
    obtain ⟨f', hcontent⟩ := reads_content hc (b := { b with fullmessage := f }) (hb.headers.trans hlast)
    rw [hadd] at hlength
    have hname := hlength ⟨name, value ++ content.dropWhile (· == SP)⟩ (by simp)
    have hgetLast : (unfold (lines ++ [.folded blank content hn hbl hc])).getLast? =
        some ⟨name, value ++ content.dropWhile (· == SP)⟩ := by rw [unfold_snoc, hadd, List.getLast?_concat]
    rw [HeaderLine.text]
    by_cases hempty : content.dropWhile (· == SP) = []
    · -- nothing is added to the value, and the flags are not looked at again
      rw [if_pos hempty] at hcontent
      have hclose : Reads consume (.headerLws, { b with
          headers := hs ++ [⟨name, value ++ content.dropWhile (· == SP)⟩], fullmessage := f' }) CRLF
          (.headerLineStart, { b with
            headers := hs ++ [⟨name, value ++ content.dropWhile (· == SP)⟩], fullmessage := f' ++ CRLF }) := by
        simp [Reads, feed, consume]
      refine ⟨_, (hblanks.append hcontent).append hclose, ?_, hb.body, fun hann => hb.chunked ?_⟩
      · rw [unfold_snoc, hadd]
      · rcases announcesChunks_snoc.1 hann with hbefore | ⟨h, hmem, hchunked⟩
        · exact hbefore
        · refine ⟨lines, List.prefix_refl _, h, ?_, hchunked⟩
          rw [hgetLast, hempty, List.append_nil] at hmem
          rwa [hlast, List.getLast?_concat]
    · rw [if_neg hempty] at hcontent
      obtain ⟨b', hclose, hheaders, hbody, hchunked⟩ := reads_lineClose (b := { b with
        headers := hs ++ [⟨name, value ++ content.dropWhile (· == SP)⟩]
        fullmessage := f' }) rfl hname
      refine ⟨b', (hblanks.append hcontent).append hclose, inHeaders_snoc hb ?_ hgetLast hbody hchunked⟩
      rw [hheaders, unfold_snoc, hadd]

/-- **The header section.** -/
theorem reads_lines {lines : List HeaderLine} (hhead : HeadField lines)
    (hlength : ∀ l ∈ lines, ∀ name ∈ l.fieldName, isContentLength name = false) {b : ResponseBuilder} (hb : Blank b) :
    ∃ b', Reads consume (.headerLineStart, b) (linesText lines) (.headerLineStart, b') ∧ InHeaders b' lines := by
  induction lines using List.reverseRecOn with
  | nil =>
    refine ⟨b, .nil _, hb.1, hb.2.1, ?_⟩
    rintro ⟨seen, hseen, h, hmem, -⟩
    obtain rfl := List.prefix_nil.1 hseen
    cases hmem
  | append_singleton lines l ih =>
    obtain ⟨b₁, h₁, hb₁⟩ := ih (headField_of_append hhead) fun l' hl' => hlength l' (List.mem_append_left _ hl')
    obtain ⟨b₂, h₂, hb₂⟩ := reads_line hhead (unfold_names hlength) hb₁
    rw [linesText_append]
    exact ⟨b₂, h₁.append h₂, hb₂⟩

/-! ## Chunks -/

/-- the size of a chunk, in hexadecimal digits -/
theorem reads_size {w : Bytes} (hne : w ≠ []) (hw : ∀ c ∈ w, isHex c = true) (b : ResponseBuilder) :
    ∃ f, Reads consume (.chunkSizeStart, b) w (.chunkSize, { b with chunksizehex := w, fullmessage := f }) := by
  obtain ⟨c, w, rfl⟩ := List.exists_cons_of_ne_nil hne
  have hfirst : consume (.chunkSizeStart, b) c = (.indeterminate, .chunkSize,
      { b with chunksizehex := [c], fullmessage := b.fullmessage ++ [c] }) := by simp [consume, hw c List.mem_cons_self]
  have hloop : Reads consume _ w _ := Reads.loop_mem
    (fun u => (.chunkSize, { b with chunksizehex := c :: u, fullmessage := b.fullmessage ++ c :: u }))
    fun u a ha => by simp [consume, hw a (List.mem_cons_of_mem c ha)]
  exact ⟨_, .cons hfirst hloop⟩

/-- the data of a chunk: until the countdown is over, a CR is a byte like any other -/
theorem reads_data {w : Bytes} {b : ResponseBuilder} (hb : b.chunksize = w.length) (hlt : w.length < 2147483648) :
    ∃ f, Reads consume (.expectingChunk, b) w
      (.expectingChunk, { b with chunksize := 0, body := b.body ++ w, fullmessage := f }) := by
  have hloop : Reads consume _ w _ := Reads.loop
    (fun u => (.expectingChunk, { b with
      chunksize := b.chunksize - u.length, body := b.body ++ u, fullmessage := b.fullmessage ++ u })) ?_
  · simp only [List.length_nil, List.append_nil, hb, Nat.cast_zero, sub_zero, sub_self] at hloop
    rw [← hb] at hloop
    exact ⟨_, hloop⟩
  · intro u a v hw
    have hlen : (u.length : ℤ) + 1 ≤ w.length := by rw [hw]; simp
    have h32 : int32 (b.chunksize - u.length - 1) = b.chunksize - u.length - 1 :=
      int32_of_range (by omega) (by omega)
    have hne : b.chunksize - u.length - 1 ≠ -1 := by omega
    simp [consume, h32, hne]
    omega

theorem stoiHex_eq {s : Bytes} (hne : s ≠ []) (hlt : hexValue s < 2147483648) : stoiHex s = some (hexValue s : ℤ) := by
  rw [stoiHex, if_neg hne]
  exact narrow_natCast hlt

/-- the size line of a chunk that is not empty -/
theorem consume_sizeEnd {b : ResponseBuilder} {n : ℤ} (hn : stoiHex b.chunksizehex = some n) :
    consume (.chunkSize, b) CR = (if n = 0 then .good else .indeterminate, .expectingNewline4,
      { b with chunksize := n, fullmessage := b.fullmessage ++ [CR] }) := by
  simp [consume, hn, (by decide : isHex CR = false)]

/-- **A chunk** adds its data to the body. -/
theorem reads_chunk (c : Chunk) (b : ResponseBuilder) :
    ∃ b', Reads consume (.chunkSizeStart, b) c.text (.chunkSizeStart, b') ∧ b'.body = b.body ++ c.data ∧
      b'.chunked = b.chunked := by
  have hpos : 0 < c.data.length := List.length_pos_iff.2 c.data_ne
  have hsize : c.size ≠ [] := by
    intro hnil
    have := c.size_eq
    rw [hnil, hexValue, List.foldl_nil] at this
    omega
  have hn : stoiHex c.size = some (c.data.length : ℤ) := by
    rw [stoiHex_eq hsize (by rw [c.size_eq]; exact c.data_lt), c.size_eq]
  obtain ⟨f, hdigits⟩ := reads_size hsize c.size_hex b
  have hcr := consume_sizeEnd (b := { b with chunksizehex := c.size, fullmessage := f }) hn
  rw [if_neg (by omega)] at hcr
  have hlf : consume (.expectingNewline4, { b with
      chunksizehex := c.size, chunksize := c.data.length, fullmessage := f ++ [CR] }) LF =
      (.indeterminate, .expectingChunk, { b with
        chunksizehex := c.size, chunksize := c.data.length, fullmessage := f ++ [CR] ++ [LF] }) := by simp [consume]
  obtain ⟨f', hdata⟩ := reads_data (w := c.data) (b := { b with
    chunksizehex := c.size, chunksize := c.data.length, fullmessage := f ++ [CR] ++ [LF] }) rfl c.data_lt
  have hend : Reads consume (.expectingChunk, { b with
      chunksizehex := c.size, chunksize := 0, body := b.body ++ c.data, fullmessage := f' }) CRLF
      (.chunkSizeStart, { b with
        chunksizehex := c.size, chunksize := -1, body := b.body ++ c.data, fullmessage := f' ++ CRLF }) := by
    simp [Reads, feed, consume, (by decide : int32 (-1) = -1)]
  have hline := (hdigits.snoc hcr).snoc hlf
  have hall := hline.append (hdata.append hend)
  rw [Chunk.text, show c.size ++ CRLF = c.size ++ [CR] ++ [LF] by simp]
  exact ⟨_, hall, rfl, rfl⟩

theorem reads_chunks (chunks : List Chunk) (b : ResponseBuilder) :
    ∃ b', Reads consume (.chunkSizeStart, b) (chunks.flatMap Chunk.text) (.chunkSizeStart, b') ∧
      b'.body = b.body ++ chunks.flatMap Chunk.data ∧ b'.chunked = b.chunked := by
  induction chunks generalizing b with
  | nil => exact ⟨b, .nil _, by simp, rfl⟩
  | cons c chunks ih =>
    obtain ⟨b₁, h₁, hbody₁, hchunked₁⟩ := reads_chunk c b
    obtain ⟨b₂, h₂, hbody₂, hchunked₂⟩ := ih b₁
    refine ⟨b₂, ?_, ?_, hchunked₂.trans hchunked₁⟩
    · rw [List.flatMap_cons]
      exact h₁.append h₂
    · rw [hbody₂, hbody₁, List.flatMap_cons, List.append_assoc]

/-- **A chunked response up to the size of its empty chunk.** -/
theorem reads_chunkedHead (status : StatusLine) {lines : List HeaderLine} (hhead : HeadField lines)
    (hchunked : AnnouncesChunks lines)
    (hlength : ∀ l ∈ lines, ∀ name ∈ l.fieldName, isContentLength name = false) (chunks : List Chunk) {zeros : Bytes}
    (hne : zeros ≠ []) (hzeros : ∀ c ∈ zeros, c = 48) (u : ResponseUninit) :
    ∃ b, Reads consume (fresh u) (chunkedHead status lines chunks zeros) (.chunkSize, b) ∧ b.chunksizehex = zeros ∧
      b.chunked = true ∧ b.body = chunks.flatMap Chunk.data := by
  obtain ⟨b₁, h₁, hb₁⟩ := reads_status status u
  obtain ⟨b₂, h₂, hb₂⟩ := reads_lines hhead hlength hb₁
  have hflag : b₂.chunked = true := hb₂.chunked hchunked
  have hblank : Reads consume (.headerLineStart, b₂) CRLF
      (.chunkSizeStart, { b₂ with fullmessage := b₂.fullmessage ++ CRLF }) := by
    simp [Reads, feed, consume, hflag]
  obtain ⟨b₃, h₃, hbody₃, hchunked₃⟩ := reads_chunks chunks { b₂ with fullmessage := b₂.fullmessage ++ CRLF }
  have hhex : ∀ c ∈ zeros, isHex c = true := by
    intro c hc
    rw [hzeros c hc]
    decide
  obtain ⟨f, h₄⟩ := reads_size hne hhex b₃
  refine ⟨_, h₁.append (h₂.append (hblank.append (h₃.append h₄))), rfl, hchunked₃.trans hflag, ?_⟩
  rw [hbody₃, hb₂.body, List.nil_append]

theorem hexValue_zeros {zeros : Bytes} (hzeros : ∀ c ∈ zeros, c = 48) : hexValue zeros = 0 := by
  induction zeros with
  | nil => rfl
  | cons c zeros ih =>
    obtain rfl := hzeros c List.mem_cons_self
    exact ih fun d hd => hzeros d (List.mem_cons_of_mem _ hd)

/-! ## One buffer or many -/

/-- buffers parsed one after the other; the verdict is that of the last -/
def parseAll (s : St) (parts : List Bytes) : Verdict × St :=
  parts.foldl (fun r data => ((parse r.2 data).1, (parse r.2 data).2.2)) (.indeterminate, s)

theorem parseAll_snoc (s : St) (parts : List Bytes) (last : Bytes) :
    parseAll s (parts ++ [last]) =
      ((parse (parseAll s parts).2 last).1, (parse (parseAll s parts).2 last).2.2) := by
  simp [parseAll]

theorem parseAll_reads {s t : St} {parts : List Bytes} (h : Reads consume s parts.flatten t) :
    parseAll s parts = (.indeterminate, t) := by
  induction parts using List.reverseRecOn generalizing t with
  | nil =>
    obtain rfl : s = t := by cases h; rfl
    rfl
  | append_singleton parts last ih =>
    rw [List.flatten_append, List.flatten_singleton] at h
    obtain ⟨r, hbefore, hlast⟩ := h.split
    rw [parseAll_snoc, ih hbefore, parse_reads hlast]

/-- **Chunked decoding.** A chunked response, fed in one buffer or in buffers cut anywhere before the CR of its empty
chunk, gives no verdict before the last buffer and good at that one, with the data of the chunks as the body, whatever
bytes they are. -/
theorem chunked_body (status : StatusLine) (lines : List HeaderLine) (hhead : HeadField lines)
    (hchunked : AnnouncesChunks lines)
    (hlength : ∀ l ∈ lines, ∀ name ∈ l.fieldName, isContentLength name = false) (chunks : List Chunk) (zeros : Bytes)
    (hne : zeros ≠ []) (hzeros : ∀ c ∈ zeros, c = 48) (parts : List Bytes) (last : Bytes)
    (hcut : parts.flatten ++ last = chunkedHead status lines chunks zeros ++ (CRLF ++ CRLF))
    (hlast : (CRLF ++ CRLF).length ≤ last.length) (u : ResponseUninit) :
    (∀ seen, seen <+: parts → (parseAll (fresh u) seen).1 = .indeterminate) ∧
      ∃ t, parseAll (fresh u) (parts ++ [last]) = (.good, t) ∧ t.2.body = chunks.flatMap Chunk.data := by
  obtain ⟨b, hhead', hhex, hflag, hbody⟩ := reads_chunkedHead status hhead hchunked hlength chunks hne hzeros u
  obtain ⟨y, hy, rfl⟩ : ∃ y, parts.flatten ++ y = chunkedHead status lines chunks zeros ∧
      last = y ++ (CRLF ++ CRLF) := by
    rcases List.append_eq_append_iff.1 hcut with ⟨y, h₁, h₂⟩ | ⟨y, h₁, h₂⟩
    · exact ⟨y, h₁.symm, h₂⟩
    · rw [h₂, List.length_append] at hlast
      obtain rfl : y = [] := List.length_eq_zero_iff.1 (by omega)
      exact ⟨[], by rw [h₁, List.append_nil, List.append_nil], by simpa using h₂.symm⟩
  rw [← hy] at hhead'
  obtain ⟨r, hparts, hrest⟩ := hhead'.split
  constructor
  · rintro seen ⟨more, rfl⟩
    rw [List.flatten_append] at hparts
    obtain ⟨r', hseen, -⟩ := hparts.split
    rw [parseAll_reads hseen]
  · have hn : stoiHex b.chunksizehex = some 0 := by
      rw [hhex, stoiHex_eq hne (by rw [hexValue_zeros hzeros]; decide), hexValue_zeros hzeros]
      rfl
    have hcr := consume_sizeEnd hn
    rw [if_pos rfl] at hcr
    have hanswer := feed_cons_answer hcr (by decide) (LF :: CRLF)
    have hframing : Framing (.chunkSize, b) := .of_chunk rfl hflag
    have hstop := (parse_answer hframing hanswer (by decide)).1 (Or.inr ⟨rfl, hflag⟩)
    rw [parseAll_snoc, parseAll_reads hparts, parse_append hrest]
    exact ⟨_, congrArg (fun p => (p.1, p.2.2)) hstop, hbody⟩

def statusOk : StatusLine where
  major := ascii "1"
  minor := ascii "1"
  hundreds := 50
  tens := 48
  ones := 48
  reason := ascii "OK"
  major_ne := by decide
  major_digit := by decide
  minor_ne := by decide
  minor_digit := by decide
  hundreds_ok := by decide
  tens_digit := by decide
  ones_digit := by decide
  reason_ok := by decide +kernel

def transferEncoding : HeaderLine :=
  .field (ascii "Transfer-Encoding") (ascii "Chunked") (by decide) (by decide +kernel) (by decide +kernel)

/-- ten bytes that look like the end of a chunk again and again -/
def misleading : Chunk where
  size := ascii "00A"
  data := ascii "0\r\n\r0\r\n1\r\n"
  size_hex := by decide
  size_eq := by decide
  data_ne := by decide
  data_lt := by decide

/-- a response of one misleading chunk -/
def misleadingResponse : Bytes :=
  chunkedHead statusOk [transferEncoding] [misleading] (ascii "00") ++ (CRLF ++ CRLF)

/-- the theorem at that response, cut inside the data -/
theorem chunked_body_misleading :
    ∃ t, parseAll (fresh ⟨9, 9, 9, 9, 9⟩) ([misleadingResponse.take 56] ++ [misleadingResponse.drop 56]) = (.good, t) ∧
      t.2.body = [misleading].flatMap Chunk.data := by
  refine (chunked_body statusOk [transferEncoding] ?_ ⟨_, List.prefix_refl _, ⟨ascii "Transfer-Encoding", ascii "Chunked"⟩,
    by decide +kernel, by decide +kernel⟩ ?_ [misleading] (ascii "00") (by decide) (by decide)
    [misleadingResponse.take 56] (misleadingResponse.drop 56) (by decide +kernel) (by decide +kernel) _).2
  · intro l hl
    obtain rfl : transferEncoding = l := by simpa using hl
    trivial
  · intro l hl name hname
    obtain rfl := List.mem_singleton.1 hl
    obtain rfl : ascii "Transfer-Encoding" = name := Option.some.inj hname
    decide +kernel

end ResponseParser

end BlogServer.Http
